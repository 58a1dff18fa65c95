import SpoolCache.Base.CyclicPaging
import SpoolCache.Base.Except
import SpoolCache.Store.Commit
import SpoolCache.Store.Withdrawal

/-!
# The worker side of the connector

`connector.py:513–640`, `685–790`, `1128–1160`, `1458–1500`, `1560–1631`,
`token_scrub.py:144–180` and `rank_store.py:674–757`. Every operation is one section of the
namespace lock; a run interleaves sections of the worker, of its scrub thread and of other processes
on the same root. Metrics and log lines are left out.
-/

namespace SpoolCache.Connector

open SpoolCache.Base SpoolCache.Prefix SpoolCache.Quorum SpoolCache.Store

/-- What a worker is configured with; `reportBatchSize` is `REPORT_BATCH_SIZE`. -/
structure WorkerConfig where
  store : StoreConfig
  triggerBytes : Nat
  reportBatchSize : Nat

/-- A worker: its rank root with the reporter, and what it keeps between operations. -/
structure Worker where
  rank : RankState
  inventoryMarkerCursor : Option Digest
  capacityRemaining : Nat

/-! ### Withdrawal markers -/

section

variable {σ : Type} (withdraw : σ → Digest → σ)

/-- `names`, `rank_store.py:698–713`: every marked key of the directory is withdrawn, and those
behind the cursor are yielded. -/
def markerNames (after : Option Digest) : σ → List Digest → σ × List Digest
  | out, [] => (out, [])
  | out, name :: entries =>
    let (out, names) := markerNames after (withdraw out name) entries
    (out, if ∀ cursor ∈ after, cursor < name then name :: names else names)

/-- `heapq.nsmallest`. -/
def nsmallest (limit : Nat) (names : List Digest) : List Digest :=
  (names.insertionSort (· ≤ ·)).take limit

/-- `inventory_withdrawal_marker_batch`, `rank_store.py:674–722`: one page of the marked keys. The
callback `withdraw` is called on what `out` holds. -/
def inventoryWithdrawalMarkerBatch (out : σ) (entries : List Digest) (limit : Nat)
    (after : Option Digest) : Except PyError (σ × List Digest × Option Digest) :=
  if limit = 0 ∨ 100000 < limit then
    .error (.valueError "inventory-withdrawal batch limit must be positive")
  else
    let (out, names) := markerNames withdraw after out entries
    let selected := nsmallest limit names
    let (out, selected) :=
      -- a page behind the last marker wraps around, with a second scan of the directory
      if selected = [] ∧ after ≠ none then
        let (out, names) := markerNames withdraw none out entries
        (out, nsmallest limit names)
      else (out, selected)
    let cursor := if selected.length = limit then selected.getLast? else none
    .ok (out, selected, cursor)

end

/-- The batch with `withdraw=reporter.remove`, `connector.py:603–608` and `1141–1147`. -/
def withdrawMarkedKeys (s : RankState) (limit : Nat) (after : Option Digest) :
    Except PyError (RankState × List Digest × Option Digest) := do
  let (reporter, selected, cursor) ←
    inventoryWithdrawalMarkerBatch InventoryReporter.remove s.reporter s.markers.keys limit after
  pure ({ s with reporter := reporter }, selected, cursor)

/-- `acknowledge_absent_inventory_withdrawals`, `rank_store.py:724–757`. -/
def acknowledgeAbsent (s : RankState) (keys : List Digest) : RankState :=
  keys.foldl (fun s key ↦ if key ∈ s.files.keys then s else clearWithdrawal s key) s

/-! ### Operations of any process -/

/-- Operations on a root that need no reporter. `damage` is not an operation: bytes of a payload
change on disk. -/
inductive StoreOp where
  | evict (key : Digest)
  | quarantine (key : Digest)
  | scrub (key : Digest)
  | enterRestore (entryId : Digest)
  | exitRestore (view : Nat) (touched : Bool) (times : Nat → Nat)
  | damage (key : Digest)

/-- The operation leaves the bytes of every file alone. -/
def StoreOp.intact : StoreOp → Bool
  | .damage _ => false
  | _ => true

section

variable (config : WorkerConfig)

/-- One key of a scrub step, `token_scrub.py:150–178`. -/
def scrubKey (hooked : Bool) (s : RankState) (key : Digest) : RankState :=
  if busy s key then s
  else
    match openChunk config.store s key true with
    | .error .fileNotFound => s
    | .error _ => quarantineBad hooked s key
    | .ok _ =>
      if ((s.files.get? key).map TokenFile.authentic).getD false then
        if key ∈ s.markers.keys then clearWithdrawal s key else s
      else quarantineBad hooked s key

/-- The payload of a file no longer matches its checksums. -/
def damage (s : RankState) (key : Digest) : RankState :=
  match s.files.get? key with
  | none => s
  | some file =>
    let file := { file with authentic := false }
    { s with files := s.files.set key file }

/-- An operation by the owner, with the hook, or by another process. -/
def storeStep (hooked : Bool) (s : RankState) : StoreOp → RankState
  | .evict key => (evict hooked s key).1
  | .quarantine key => quarantineBad hooked s key
  | .scrub key => scrubKey config hooked s key
  | .enterRestore entryId => (restoreView config.store hooked s entryId).1
  | .exitRestore view touched times => exitRestore times s view touched
  | .damage key => damage s key

/-! ### Startup -/

/-- Rounds of capacity batches, `connector.py:1620–1630`; each round lowers the candidates that
remain. -/
def capacityRounds : Nat → RankState → Nat → RankState
  | 0, s, _ => s
  | fuel + 1, s, remaining =>
    let (s, report) := maintainCapacityBatch false s config.triggerBytes remaining
    if report.candidatesRemaining = 0 then s
    else capacityRounds fuel s report.candidatesRemaining

/-- `_scan_worker_catalog`, `connector.py:1607–1610`. -/
def scanWorkerCatalog (s : RankState) (bounds : InventoryBounds) : List (Digest × Nat) :=
  scanOffers config.store s bounds.inventoryCapacity

/-- `_prepare_worker_catalog`, `connector.py:1613–1631`. -/
def prepareWorkerCatalog (s : RankState) (bounds : InventoryBounds) :
    RankState × List (Digest × Nat) :=
  let s := capacityRounds config (s.files.size + 2) s 0
  (s, scanWorkerCatalog config s bounds)

/-- The section that builds the reporter from the scanned offers, `connector.py:598–620`. -/
def startInventory (reporterConfig : ReporterConfig) (s : RankState)
    (offers : List (Digest × Nat)) : Except PyError (Worker × List Entry) := do
  let reporter ← (InventoryReporter.create reporterConfig).replace (offers.map rawOffer)
  let (s, markerBatch, cursor) ←
    withdrawMarkedKeys { s with reporter := reporter } config.reportBatchSize none
  let (startupInventory, reporter) := s.reporter.startup
  let s := acknowledgeAbsent { s with reporter := reporter } markerBatch
  pure (⟨s, cursor, 0⟩, startupInventory)

/-- `register_kv_caches`, `connector.py:587–620`: the worker and its startup image. Other
processes may work on the root between the scan and `reporter.replace`. -/
def registerKvCaches (reporterConfig : ReporterConfig) (s : RankState) (between : List StoreOp) :
    Except PyError (Worker × List Entry) :=
  let (s, offers) := prepareWorkerCatalog config s reporterConfig.bounds
  startInventory config reporterConfig (between.foldl (storeStep config false) s) offers

/-! ### Operations of the worker -/

/-- A store plan, `connector.py:758–775`: the objects of a commit are offered when it succeeds. -/
def commitStorePlan (oracle : CommitOracle) (s : RankState) (prefixes : List PrefixDigest)
    (blockTables : List (List Nat)) : RankState :=
  match commitKeys config.store true oracle s prefixes blockTables with
  | (s, .error _) => s
  | (s, .ok snapshot) => { s with reporter := addObjects s.reporter snapshot.objects }

/-- A scan that replaces the reporter's image, `connector.py:1486–1493` and `1572–1576`. -/
def rescan (s : RankState) : RankState :=
  { s with reporter :=
    replaceOffers s.reporter (scanWorkerCatalog config s s.reporter.config.bounds) }

/-- The capacity batch of the worker, `connector.py:1564–1569`. -/
def capacityBatch (w : Worker) : Worker × CapacityBatchReport :=
  let (s, report) := maintainCapacityBatch true w.rank config.triggerBytes w.capacityRemaining
  (⟨s, w.inventoryMarkerCursor, report.candidatesRemaining⟩, report)

/-- `_maintain_capacity`, `connector.py:1560–1577`, without another process in between. -/
def maintainCapacity (w : Worker) : Worker :=
  let (w, report) := capacityBatch config w
  if report.candidatesAttempted = 0 ∧ report.objectsRemoved = 0 then w
  else { w with rank := rescan config w.rank }

/-- `get_kv_connector_stats` of a worker, `connector.py:1140–1150`. -/
def getKvConnectorStats (w : Worker) : Except PyError (Worker × WorkerInventoryReport) := do
  let (s, markerBatch, cursor) ←
    withdrawMarkedKeys w.rank config.reportBatchSize w.inventoryMarkerCursor
  let (report, reporter) ← s.reporter.nextReport (some config.reportBatchSize)
  let s := acknowledgeAbsent { s with reporter := reporter } markerBatch
  pure (⟨s, cursor, w.capacityRemaining⟩, report)

/-- A section of the namespace lock during the life of a worker. -/
inductive WorkerOp where
  | store (hooked : Bool) (op : StoreOp)
  | commit (oracle : CommitOracle) (prefixes : List PrefixDigest) (blockTables : List (List Nat))
  | removeEntry (key : Digest)
  | capacityBatch
  | rescan
  | withdrawImage
  | stats

/-- A section that publishes no file, damages none and produces no report. -/
def WorkerOp.quiet : WorkerOp → Bool
  | .store _ op => op.intact
  | .commit _ _ _ => false
  | .stats => false
  | _ => true

/-- One section; a stats call that raises changes nothing. -/
def Worker.step (w : Worker) : WorkerOp → Worker
  | .store hooked op => { w with rank := storeStep config hooked w.rank op }
  | .commit oracle prefixes blockTables =>
    { w with rank := commitStorePlan config oracle w.rank prefixes blockTables }
  | .removeEntry key =>
    let reporter := w.rank.reporter.remove key
    { w with rank := { w.rank with reporter := reporter } }
  | .capacityBatch => (capacityBatch config w).1
  | .rescan => { w with rank := rescan config w.rank }
  | .withdrawImage =>
    let reporter := replaceOffers w.rank.reporter []
    { w with rank := { w.rank with reporter := reporter } }
  | .stats =>
    match getKvConnectorStats config w with
    | .error _ => w
    | .ok (w, _) => w

/-- A run of sections. -/
def Worker.run (w : Worker) (ops : List WorkerOp) : Worker := ops.foldl (Worker.step config) w

end

/-! ### Calls of a marker batch -/

/-- The calls of `withdraw` in a batch: a batch that wraps scans the directory twice. -/
def withdrawals (entries : List Digest) (after : Option Digest) : List Digest :=
  if following entries after = [] ∧ after ≠ none then entries ++ entries else entries

private theorem markerNames_eq {σ : Type} (withdraw : σ → Digest → σ) (after : Option Digest)
    (out : σ) (entries : List Digest) :
    markerNames withdraw after out entries =
      (entries.foldl withdraw out,
        entries.filter fun name ↦ decide (∀ cursor ∈ after, cursor < name)) := by
  induction entries generalizing out with
  | nil => rfl
  | cons name entries ih =>
    rw [markerNames, ih, List.foldl_cons, List.filter_cons]
    simp only [decide_eq_true_eq]

private theorem nsmallest_eq_nil_iff {limit : Nat} (hl : 0 < limit) (entries : List Digest)
    (after : Option Digest) :
    nsmallest limit (entries.filter fun name ↦ decide (∀ cursor ∈ after, cursor < name)) = [] ↔
      following entries after = [] := by
  rw [nsmallest, List.take_eq_nil_iff]
  exact ⟨fun h ↦ h.resolve_left (by omega), .inr⟩

/-- A batch calls `withdraw` on every marked key, and its page is the next one of a cyclic
paging. -/
theorem inventoryWithdrawalMarkerBatch_eq {σ : Type} (withdraw : σ → Digest → σ) (out : σ)
    (entries : List Digest) {limit : Nat} (hl : 0 < limit) (hle : limit ≤ 100000)
    (after : Option Digest) :
    inventoryWithdrawalMarkerBatch withdraw out entries limit after =
      .ok ((withdrawals entries after).foldl withdraw out, cyclicPage limit entries after,
        nextCursor limit (cyclicPage limit entries after)) := by
  have hbatch : ¬ (limit = 0 ∨ 100000 < limit) := by omega
  unfold inventoryWithdrawalMarkerBatch
  rw [if_neg hbatch, markerNames_eq]
  dsimp only
  rw [markerNames_eq]
  have hempty : (nsmallest limit (entries.filter fun name ↦
      decide (∀ cursor ∈ after, cursor < name)) = [] ∧ after ≠ none) ↔
      (following entries after = [] ∧ after ≠ none) :=
    and_congr_left' (nsmallest_eq_nil_iff hl entries after)
  by_cases hwrap : following entries after = [] ∧ after ≠ none
  · have hpage : cyclicPage limit entries after =
        nsmallest limit (entries.filter fun name ↦ decide (∀ cursor ∈ none, cursor < name)) := by
      rw [cyclicPage, sweep, if_pos hwrap.1]
      rfl
    rw [if_pos (hempty.mpr hwrap), withdrawals, if_pos hwrap, List.foldl_append, hpage]
    rfl
  · have hpage : cyclicPage limit entries after =
        nsmallest limit (entries.filter fun name ↦ decide (∀ cursor ∈ after, cursor < name)) := by
      rw [cyclicPage, sweep]
      split
      · next hnil =>
        have hafter : after = none := by
          by_contra hne
          exact hwrap ⟨hnil, hne⟩
        rw [hafter]
        rfl
      · rfl
    rw [if_neg (fun h ↦ hwrap (hempty.mp h)), withdrawals, if_neg hwrap, hpage]
    rfl

/-- Whatever the cursor, the sweep visits the marked entries. -/
theorem mem_withdrawals {entries : List Digest} {after : Option Digest} {key : Digest} :
    key ∈ withdrawals entries after ↔ key ∈ entries := by
  unfold withdrawals
  split
  · rw [List.mem_append, or_self]
  · rfl

/-- Removing a list of keys leaves the other ones. -/
theorem keys_removeAll (r : InventoryReporter) (keys : List Digest) (key : Digest) :
    key ∈ (keys.foldl InventoryReporter.remove r).held.keys ↔
      key ∉ keys ∧ key ∈ r.held.keys := by
  induction keys generalizing r with
  | nil => simp
  | cons a keys ih =>
    rw [List.foldl_cons, ih, InventoryReporter.remove, OrderedDict.mem_keys_erase, List.mem_cons,
      not_or]
    exact ⟨fun ⟨h1, h2, h3⟩ ↦ ⟨⟨h2, h1⟩, h3⟩, fun ⟨⟨h2, h1⟩, h3⟩ ↦ ⟨h1, h2, h3⟩⟩

private theorem remove_of_not_mem {r : InventoryReporter} {key : Digest} (h : key ∉ r.held.keys) :
    r.remove key = r := by
  have hget : r.held.get? key = none := by
    rw [OrderedDict.get?_eq_none_iff]
    exact h
  rw [InventoryReporter.remove, OrderedDict.erase_of_not_mem _ _ h, hget, Option.isSome_none,
    Bool.or_false]

private theorem removeAll_of_not_mem {r : InventoryReporter} {keys : List Digest}
    (h : ∀ key ∈ keys, key ∉ r.held.keys) : keys.foldl InventoryReporter.remove r = r := by
  induction keys with
  | nil => rfl
  | cons key keys ih =>
    rw [List.foldl_cons, remove_of_not_mem (h key List.mem_cons_self)]
    exact ih fun k hk ↦ h k (List.mem_cons_of_mem _ hk)

/-- Scanning the directory a second time withdraws nothing more. -/
theorem foldl_withdrawals (r : InventoryReporter) (entries : List Digest) (after : Option Digest) :
    (withdrawals entries after).foldl InventoryReporter.remove r =
      entries.foldl InventoryReporter.remove r := by
  unfold withdrawals
  split
  · rw [List.foldl_append]
    exact removeAll_of_not_mem fun key hk hheld ↦ ((keys_removeAll r entries key).mp hheld).1 hk
  · rfl

/-- A batch for the reporter: every marked key is withdrawn, and the page has marked keys only. -/
theorem withdrawMarkedKeys_ok {s s' : RankState} {limit : Nat} {after cursor : Option Digest}
    {selected : List Digest}
    (h : withdrawMarkedKeys s limit after = .ok (s', selected, cursor)) :
    s' = { s with reporter := s.markers.keys.foldl InventoryReporter.remove s.reporter } ∧
      ∀ key ∈ selected, key ∈ s.markers.keys := by
  obtain ⟨⟨reporter, page, next⟩, hbatch, h⟩ := bind_ok h
  cases h
  have hlimit : ¬ (limit = 0 ∨ 100000 < limit) := by
    intro hbad
    rw [inventoryWithdrawalMarkerBatch, if_pos hbad] at hbatch
    cases hbatch
  rw [inventoryWithdrawalMarkerBatch_eq _ _ _ (by omega) (by omega), foldl_withdrawals] at hbatch
  cases hbatch
  exact ⟨rfl, fun key hk ↦ mem_of_mem_sweep (List.mem_of_mem_take hk)⟩

end SpoolCache.Connector

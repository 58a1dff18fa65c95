import SpoolCache.Store.GenerationEpoch
import SpoolCache.Telemetry.Metrics

/-!
# The event journal

`event_journal.py` and `connector.py:1409–1420`. Counters of failures that end their worker are
kept in one small file of the rank root. An increment changes the totals in memory, writes them
under a temporary name and renames it onto the journal; an error takes the change in memory back,
whatever became of the file.
-/

namespace SpoolCache.Telemetry

open SpoolCache.Base SpoolCache.Store

/-- `EVENT_JOURNAL_SCHEMA`, `event_journal.py:17`. -/
def eventJournalSchema : String := "spoolcache-events/v1"

/-- `_MAX_EVENT_JOURNAL_BYTES`, `event_journal.py:19`. -/
def maxEventJournalBytes : Nat := 64 * 1024

/-- `_PERSISTENT_METRICS`, `event_journal.py:20–26`. -/
def persistentMetrics : List String :=
  ["spoolcache_post_admission_failure_total", "spoolcache_quarantined_entries_total",
    "spoolcache_scrub_shutdown_failures_total"]

/-- The state directory has one journal. -/
abbrev JournalDirectory := SmallDirectory Unit

/-- A program on the state directory. -/
abbrev JournalProgram := SmallProgram Unit

/-- `_totals`. -/
abbrev Totals := OrderedDict MetricKey Nat

/-- The total of a counter; one that was never incremented is absent. -/
def count (totals : Totals) (key : MetricKey) : Nat := (totals.get? key).getD 0

/-- `_metric_key`, `event_journal.py:60–76`. -/
def metricKey (name : Json) (labels : List Json) : Except PyError MetricKey :=
  match name with
  | .str name =>
    if name ∉ persistentMetrics then
      .error (.valueError "event journal metric is not crash-persistent")
    else
      match metricDefinitions.lookup name with
      | none => .error (.keyError name)
      | some definition =>
        if definition.kind ≠ .counter then
          .error (.valueError "event journal metric is not a counter")
        else
          match textsOf labels with
          | none =>
            .error (.valueError "event journal labels are outside the bounded vocabulary")
          | some texts =>
            if texts ∉ definition.allowedLabels then
              .error (.valueError "event journal labels are outside the bounded vocabulary")
            else .ok ⟨name, texts⟩
  | _ => .error (.valueError "event journal metric is not crash-persistent")

/-! ### Reading -/

/-- The fields of a record, `event_journal.py:121–136`. -/
def loadRecord (raw : Json) : Except PyError (MetricKey × Nat) :=
  if raw.hasFields ["name", "labels", "value"] = false then
    .error (.valueError "event journal record is malformed")
  else
    match raw.field? "name", raw.field? "labels" with
    | some name, some (.arr labels) => do
      let key ← metricKey name labels
      match raw.field? "value" with
      | some (.int value) =>
        if value < 0 ∨ (maxMetricValue : Int) < value then
          .error (.valueError "event journal counter is malformed")
        else pure (key, value.toNat)
      | _ => .error (.valueError "event journal counter is malformed")
    | _, _ => .error (.valueError "event journal labels are malformed")

/-- The loop over the records, `event_journal.py:120–139`. -/
def loadRecords : List Json → Totals → Except PyError Totals
  | [], totals => .ok totals
  | raw :: records, totals => do
    let (key, value) ← loadRecord raw
    if key ∈ totals.keys then
      .error (.valueError "event journal contains duplicate counters")
    else loadRecords records (totals.set key value)

/-- The checks of a decoded file, `event_journal.py:112–140`. -/
def loadPayload (payload : Json) : Except PyError Totals :=
  if payload.hasFields ["schema", "totals"] = false ∨
      payload.textField? "schema" ≠ some eventJournalSchema then
    .error (.valueError "event journal schema is malformed")
  else
    match payload.field? "totals" with
    | some (.arr records) => loadRecords records .empty
    | _ => .error (.valueError "event journal schema is malformed")

/-- What is made of an open file, `event_journal.py:91–140`. -/
def loadFile (f : SmallFile) : Except PyError Totals :=
  if f.regular = false then .error (.valueError "event journal is not a regular file")
  else if f.bytes.length = 0 ∨ maxEventJournalBytes < f.bytes.length then
    .error (.valueError "event journal size is invalid")
  else
    match Json.loads f.bytes with
    | none => .error (.valueError "event journal is malformed")
    | some payload => loadPayload payload

/-- What a journal that may be absent is loaded as. -/
def loadContents : Option SmallFile → Except PyError Totals
  | none => .ok .empty
  | some f => loadFile f

/-- `_load`, `event_journal.py:78–140`: the file may be absent, else opening or reading it may
fail. -/
def load : JournalProgram Totals := do
  let file ← .look (.valueError "event journal cannot be opened") fun d ↦ .ok (d.get? (.target ()))
  .look (.osError "read") fun _ ↦ loadContents file

/-- A system call that leaves the directory as it is. -/
def touchDescriptor (name : String) : JournalProgram Unit := .look (.osError name) fun _ ↦ .ok ()

/-- Opening, syncing and closing the state directory, `event_journal.py:191–198`. -/
def fsyncStateDirectory : JournalProgram Unit := do
  touchDescriptor "open"
  .onError fsyncDirectory (touchDescriptor "close")
  touchDescriptor "close"

/-- The loop of `_cleanup_abandoned_temporaries`, `event_journal.py:229–249`. -/
def removeAbandoned : List Nat → JournalProgram Nat
  | [] => pure 0
  | nonce :: rest => do
    let metadata ← .look (.osError "stat") fun d ↦ .ok (d.get? (.temporary () nonce))
    match metadata with
    | none => removeAbandoned rest
    | some f =>
      if f.regular = false then
        .raise (.valueError "event journal temporary is not a regular file")
      else
        let removed ← .handle (do unlink (.temporary () nonce); pure 1) fun e ↦
          if e = .fileNotFound then pure 0 else .raise e
        let count ← removeAbandoned rest
        pure (removed + count)

/-- `_cleanup_abandoned_temporaries`, `event_journal.py:224–258`. -/
def cleanupAbandonedTemporaries : JournalProgram Unit := do
  let nonces ← .look (.osError "scandir") fun d ↦ .ok (temporaries () d)
  let removed ← removeAbandoned nonces
  if removed = 0 then pure () else fsyncStateDirectory

/-- The end of `__init__`, `event_journal.py:54–57`. -/
def openJournal : JournalProgram Totals := do
  cleanupAbandonedTemporaries
  load

/-! ### Writing -/

/-- One record of the file; its names are in the order in which they are written. -/
def recordJson (entry : MetricKey × Nat) : Json :=
  .obj [("labels", .arr (entry.1.labels.map .str)), ("name", .str entry.1.name),
    ("value", .int entry.2)]

/-- The payload of the file, `event_journal.py:143–149`. -/
def journalPayload (totals : Totals) : Json :=
  .obj [("schema", .str eventJournalSchema),
    ("totals", .arr (totals.sortedItems.map recordJson))]

/-- `_write`, `event_journal.py:142–198`, with the nonce it draws. -/
def write (nonce : Nat) (totals : Totals) : JournalProgram Unit := do
  let encoded := smallJsonLine (journalPayload totals)
  if maxEventJournalBytes < encoded.length then
    .raise (.valueError "event journal exceeds its fixed byte bound")
  else do
    createExclusive (.temporary () nonce)
    .onError (do
        writeAll (.temporary () nonce) encoded
        fsyncFile (.temporary () nonce))
      (do
        touchDescriptor "close"
        unlinkMissingOk (.temporary () nonce))
    touchDescriptor "close"
    .onError (replace (.temporary () nonce) (.target ()))
      (unlinkMissingOk (.temporary () nonce))
    fsyncStateDirectory

/-- The totals that an error leaves, `event_journal.py:215–219`. -/
def rollback (totals : Totals) (key : MetricKey) (previous : Nat) : Totals :=
  if previous ≠ 0 then totals.set key previous else totals.erase key

/-- An increment with the totals it leaves in memory. -/
structure Incremented where
  outcome : Outcome PyError Unit
  totals : Totals
  machine : Machine JournalDirectory

/-- `increment`, `event_journal.py:200–219`. -/
def increment (nonce : Nat) (totals : Totals) (name : String) (labels : List String) (amount : Int)
    (m : Machine JournalDirectory) : Incremented :=
  match metricKey (.str name) (labels.map .str) with
  | .error e => ⟨.raised e, totals, m⟩
  | .ok key =>
    if amount ≤ 0 then
      ⟨.raised (.valueError "event journal increment must be a positive integer"), totals, m⟩
    else
      let previous := count totals key
      if (maxMetricValue : Int) - previous < amount then
        ⟨.raised (.valueError "event journal counter exceeds its fixed bound"), totals, m⟩
      else
        let updated := totals.set key (previous + amount.toNat)
        match write nonce updated m with
        | (.returned (), m) => ⟨.returned (), updated, m⟩
        | (.raised e, m) => ⟨.raised e, rollback updated key previous, m⟩
        | (.crashed, m) => ⟨.crashed, updated, m⟩

/-- What `_refresh_worker_metrics` adds to the telemetry for the journal, given the totals that
it saw last, `connector.py:1412–1420`. -/
def journalDeltas (cursor : Totals) : List (MetricKey × Nat) →
    Except PyError (List (MetricKey × Nat))
  | [] => .ok []
  | (key, total) :: totals => do
    let previous := count cursor key
    if total < previous then
      .error (.runtimeError "SpoolCache persistent event counter moved backwards")
    else
      let deltas ← journalDeltas cursor totals
      pure (if previous < total then (key, total - previous) :: deltas else deltas)

end SpoolCache.Telemetry

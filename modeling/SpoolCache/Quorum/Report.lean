import SpoolCache.Core.Config

/-!
# Inventory reports and their validation

`quorum.py:32–56` (the report records) and `quorum.py:642–750` (`_validate_entries`,
`validate_inventory_report`). A report that arrives is a `RawReport`, whose fields may fail
any `isinstance` test; validation returns the same report with typed fields, or the error the
source raises. Reports built by a worker are typed from the start and enter through `toRaw`.
-/

namespace SpoolCache.Quorum

/-- An inventory entry: key and token span. -/
abbrev Entry := Digest × Span

/-- `InventoryCheckpoint`, `quorum.py:32–39`. -/
structure InventoryCheckpoint where
  sequence : Nat
  cycle : Nat
  index : Nat
  count : Nat
  heldCount : Nat
  entries : List Entry
  deriving DecidableEq

/-- `InventoryDelta`, `quorum.py:42–47`. -/
structure InventoryDelta where
  sequence : Nat
  baseSequence : Nat
  added : List Entry
  removed : List Digest
  deriving DecidableEq

/-- Process identity of a worker: generation text and epoch. -/
abbrev Identity := String × Nat

instance instLawfulBEqIdentity : LawfulBEq Identity := inferInstance

/-- `WorkerInventoryReport`, `quorum.py:50–56`. -/
structure WorkerInventoryReport where
  rank : Nat
  generation : String
  generationEpoch : Nat
  checkpoint : InventoryCheckpoint
  delta : Option InventoryDelta
  deriving DecidableEq

/-! ### Reports as they arrive -/

/-- An entry as it arrives: a pair whose parts may fail their tests, or no pair. -/
inductive RawEntry where
  | notPair
  | pair (entryId : Option Digest) (span : PyInt)
  deriving DecidableEq

/-- A checkpoint as it arrives; `entries` is `none` when it is not a tuple. -/
structure RawCheckpoint where
  sequence : PyInt
  cycle : PyInt
  index : PyInt
  count : PyInt
  heldCount : PyInt
  entries : Option (List RawEntry)
  deriving DecidableEq

/-- A delta as it arrives; a member list is `none` when it is not a tuple. -/
structure RawDelta where
  sequence : PyInt
  baseSequence : PyInt
  added : Option (List RawEntry)
  removed : Option (List (Option Digest))
  deriving DecidableEq

/-- The delta field: `None`, a value of another type, or a delta record. -/
inductive RawDeltaField where
  | none
  | malformed
  | delta (d : RawDelta)
  deriving DecidableEq

/-- A report as it arrives; `checkpoint` is `none` when it has another type. -/
structure RawReport where
  rank : PyInt
  generation : Option String
  generationEpoch : PyInt
  checkpoint : Option RawCheckpoint
  delta : RawDeltaField
  deriving DecidableEq

/-- An iterable of entries: the items it yields, and the error it ends with, if any. -/
structure EntryStream where
  items : List RawEntry
  failure : Option PyError
  deriving DecidableEq

/-! ### Validation -/

/-- `MAX_INVENTORY_REPORTS`, `quorum.py:18`. -/
def maxInventoryReports : Nat := 4096

/-- `_MAX_GENERATION_LENGTH`, `quorum.py:16`. -/
def maxGenerationLength : Nat := 128

private theorem toNat_span {n : Int} (h : 0 < n ∧ n ≤ maxCounter) : 0 < n.toNat ∧
      n.toNat ≤ maxCounter := by
  obtain ⟨hp, hm⟩ := h
  omega

/-- Span test of `_validate_entries`, `quorum.py:654–661`. -/
def validateSpan (span : PyInt) : Except PyError Span :=
  match span with
  | some n =>
    if h : 0 < n ∧ n ≤ maxCounter then .ok ⟨n.toNat, toNat_span h⟩
    else .error (.manifestError "inventory token span is invalid")
  | none => .error (.manifestError "inventory token span is invalid")

/-- One round of `_validate_entries`, `quorum.py:643–661`. -/
def validateEntry : RawEntry → Except PyError Entry
  | .notPair => .error (.manifestError "inventory entry is malformed")
  | .pair none _ => .error (.manifestError "inventory entry ID is malformed")
  | .pair (some entryId) span => do
    let span ← validateSpan span
    pure (entryId, span)

/-- `_validate_entries`: the first bad entry decides, `quorum.py:642–661`. -/
def validateEntries (entries : List RawEntry) : Except PyError (List Entry) :=
  entries.mapM validateEntry

/-- `_validate_generation_identity`, `quorum.py:355–366`. -/
def validateGenerationIdentity (generation : Option String) (epoch : PyInt) :
    Except PyError Identity :=
  match generation, epoch with
  | some g, some e =>
    if g ≠ "" ∧ g.length ≤ maxGenerationLength ∧ 0 ≤ e ∧ e ≤ maxCounter then .ok (g, e.toNat)
    else .error (.valueError "inventory generation identity is invalid")
  | _, _ => .error (.valueError "inventory generation identity is invalid")

/-- Identity part of `validate_inventory_report`, `quorum.py:679–692`. -/
def validateReportIdentity (report : RawReport) : Except PyError (Nat × Identity) :=
  match report.rank, validateGenerationIdentity report.generation report.generationEpoch with
  | some rank, .ok identity =>
    if 0 ≤ rank ∧ rank < maxInventoryReports then .ok (rank.toNat, identity)
    else .error (.manifestError "inventory generation is malformed")
  | _, _ => .error (.manifestError "inventory generation is malformed")

/-- Checkpoint part of `validate_inventory_report`, `quorum.py:693–724`. -/
def validateCheckpoint (bounds : InventoryBounds) (checkpoint : Option RawCheckpoint) :
    Except PyError InventoryCheckpoint :=
  match checkpoint with
  | none => .error (.manifestError "inventory checkpoint type is malformed")
  | some cp =>
    match cp.entries with
    | none => .error (.manifestError "inventory checkpoint type is malformed")
    | some entries =>
      match cp.sequence, cp.cycle, cp.index, cp.count, cp.heldCount with
      | some sequence, some cycle, some index, some count, some heldCount =>
        if sequence < 0 ∨ (maxCounter : Int) < sequence ∨ cycle < 0 ∨ (maxCounter : Int) < cycle ∨
            count ≤ 0 ∨ max 1 heldCount < count ∨ ¬ (0 ≤ index ∧ index < count) ∨
            ¬ (0 ≤ heldCount ∧ heldCount ≤ bounds.inventoryCapacity) ∨
            bounds.maxReportEntries < entries.length ∨ heldCount < entries.length then
          .error (.manifestError "checkpoint bounds are invalid")
        else do
          let entries ← validateEntries entries
          pure ⟨sequence.toNat, cycle.toNat, index.toNat, count.toNat, heldCount.toNat, entries⟩
      | _, _, _, _, _ => .error (.manifestError "checkpoint counters are malformed")

/-- Delta part of `validate_inventory_report`, `quorum.py:725–750`. Removed keys pass the
entry test with a dummy span, so only the key part of it can fail. -/
def validateDelta (bounds : InventoryBounds) (delta : RawDeltaField) :
    Except PyError (Option InventoryDelta) :=
  match delta with
  | .none => .ok none
  | .malformed => .error (.manifestError "inventory delta type is malformed")
  | .delta d =>
    match d.added, d.removed with
    | some added, some removed =>
      match d.sequence, d.baseSequence with
      | some sequence, some base =>
        if base < 0 ∨ (maxCounter : Int) < base ∨ sequence ≤ 0 ∨ (maxCounter : Int) < sequence ∨
            sequence ≠ base + 1 then
          .error (.manifestError "delta counters are malformed")
        else do
          let added ← validateEntries added
          let removed ← validateEntries (removed.map fun k ↦ .pair k (some 1))
          let addedIds := added.map Prod.fst
          let removedIds := removed.map Prod.fst
          if bounds.maxReportEntries < added.length + removed.length ∨ ¬ addedIds.Nodup ∨
              ¬ removedIds.Nodup ∨ ∃ k ∈ addedIds, k ∈ removedIds then
            .error (.manifestError "inventory delta contains duplicate entry IDs")
          else pure (some ⟨sequence.toNat, base.toNat, added, removedIds⟩)
      | _, _ => .error (.manifestError "delta counters are malformed")
    | _, _ => .error (.manifestError "inventory delta type is malformed")

/-- `validate_inventory_report`, `quorum.py:664–750`. -/
def validateInventoryReport (bounds : InventoryBounds) (report : RawReport) :
    Except PyError WorkerInventoryReport := do
  let (rank, identity) ← validateReportIdentity report
  let checkpoint ← validateCheckpoint bounds report.checkpoint
  let delta ← validateDelta bounds report.delta
  pure ⟨rank, identity.1, identity.2, checkpoint, delta⟩

/-! ### Typed reports on the wire -/

/-- A typed entry as a receiver sees it. -/
def rawEntry (e : Entry) : RawEntry := .pair (some e.1) (some (e.2.val : Int))

/-- A typed checkpoint as a receiver sees it. -/
def InventoryCheckpoint.toRaw (cp : InventoryCheckpoint) : RawCheckpoint where
  sequence := some cp.sequence
  cycle := some cp.cycle
  index := some cp.index
  count := some cp.count
  heldCount := some cp.heldCount
  entries := some (cp.entries.map rawEntry)

/-- A typed delta as a receiver sees it. -/
def InventoryDelta.toRaw (d : InventoryDelta) : RawDelta where
  sequence := some d.sequence
  baseSequence := some d.baseSequence
  added := some (d.added.map rawEntry)
  removed := some (d.removed.map some)

/-- A typed report as a receiver sees it. -/
def WorkerInventoryReport.toRaw (r : WorkerInventoryReport) : RawReport where
  rank := some r.rank
  generation := some r.generation
  generationEpoch := some r.generationEpoch
  checkpoint := some r.checkpoint.toRaw
  delta := match r.delta with
    | none => .none
    | some d => .delta d.toRaw

/-- Every span is accepted as a raw value. -/
theorem validateSpan_val (s : Span) : validateSpan (some (s.val : Int)) = .ok s := by
  obtain ⟨n, hp, hm⟩ := s
  have hc : (0 : Int) < n ∧ (n : Int) ≤ maxCounter := by omega
  simp only [validateSpan]
  rw [dif_pos hc]
  rfl

private theorem validateEntry_rawEntry (e : Entry) : validateEntry (rawEntry e) = .ok e := by
  obtain ⟨k, s⟩ := e
  simp only [rawEntry, validateEntry, validateSpan_val]
  rfl

/-- Typed entries pass validation unchanged. -/
theorem validateEntries_rawEntry (es : List Entry) :
    validateEntries (es.map rawEntry) = .ok es := by
  induction es with
  | nil => rfl
  | cons e es ih =>
    rw [validateEntries, List.map_cons, List.mapM_cons, validateEntry_rawEntry]
    change (validateEntries (es.map rawEntry) >>= fun rest ↦ pure (e :: rest)) = _
    rw [ih]
    rfl

/-- Validation of a typed checkpoint either fails or returns it. -/
theorem validateCheckpoint_toRaw {bounds : InventoryBounds} {cp cp' : InventoryCheckpoint}
    (h : validateCheckpoint bounds (some cp.toRaw) = .ok cp') : cp' = cp := by
  simp only [validateCheckpoint, InventoryCheckpoint.toRaw] at h
  split at h
  · cases h
  · rw [validateEntries_rawEntry] at h
    cases h
    simp

/-- Removed keys are accepted as entries with some span. -/
theorem validateEntries_removed (ks : List Digest) :
    validateEntries ((ks.map some).map fun k ↦ .pair k (some 1)) =
      .ok (ks.map fun k ↦ (k, ⟨1, by decide⟩)) := by
  have he : (ks.map some).map (fun k ↦ RawEntry.pair k (some 1)) =
      (ks.map fun k ↦ ((k, ⟨1, by decide⟩) : Entry)).map rawEntry := by
    rw [List.map_map, List.map_map]
    rfl
  rw [he, validateEntries_rawEntry]

/-- Validation of a typed delta either fails or returns it. -/
theorem validateDelta_toRaw {bounds : InventoryBounds} {d : InventoryDelta}
    {d' : Option InventoryDelta} (h : validateDelta bounds (.delta d.toRaw) = .ok d') :
    d' = some d := by
  simp only [validateDelta, InventoryDelta.toRaw] at h
  split at h
  · cases h
  · rw [validateEntries_rawEntry, validateEntries_removed] at h
    simp only [bind, Except.bind] at h
    split at h
    · cases h
    · cases h
      simp [List.map_map, Function.comp_def]

/-- Validation of a report validates its parts. -/
theorem validateInventoryReport_ok {bounds : InventoryBounds} {raw : RawReport}
    {r : WorkerInventoryReport} (h : validateInventoryReport bounds raw = .ok r) :
    validateCheckpoint bounds raw.checkpoint = .ok r.checkpoint ∧
      validateDelta bounds raw.delta = .ok r.delta := by
  unfold validateInventoryReport at h
  cases hi : validateReportIdentity raw with
  | error e => simp [hi, bind, Except.bind] at h
  | ok p =>
    cases hc : validateCheckpoint bounds raw.checkpoint with
    | error e => simp [hi, hc, bind, Except.bind] at h
    | ok cp =>
      cases hd : validateDelta bounds raw.delta with
      | error e => simp [hi, hc, hd, bind, Except.bind] at h
      | ok d =>
        simp only [hi, hc, hd, bind, Except.bind, pure, Except.pure, Except.ok.injEq] at h
        subst h
        exact ⟨rfl, rfl⟩

/-- Validation of a typed report either fails or returns the report. -/
theorem validateInventoryReport_toRaw {bounds : InventoryBounds} {r r' : WorkerInventoryReport}
    (h : validateInventoryReport bounds r.toRaw = .ok r') :
    r'.checkpoint = r.checkpoint ∧ r'.delta = r.delta := by
  obtain ⟨hc, hd⟩ := validateInventoryReport_ok h
  refine ⟨validateCheckpoint_toRaw hc, ?_⟩
  cases hr : r.delta with
  | none =>
    simp only [WorkerInventoryReport.toRaw, hr, validateDelta, Except.ok.injEq] at hd
    exact hd.symm
  | some delta =>
    simp only [WorkerInventoryReport.toRaw, hr] at hd
    exact validateDelta_toRaw hd

/-! ### What accepted reports look like -/

/-- An accepted entry is a well-formed pair. -/
theorem eq_rawEntry_of_validateEntry {r : RawEntry} {e : Entry} (h : validateEntry r = .ok e) :
    r = rawEntry e := by
  cases r with
  | notPair => cases h
  | pair entryId span =>
    cases entryId with
    | none => cases h
    | some k =>
      cases span with
      | none => cases h
      | some n =>
        simp only [validateEntry, validateSpan] at h
        by_cases hn : 0 < n ∧ n ≤ maxCounter
        · rw [dif_pos hn] at h
          cases h
          simp only [rawEntry, RawEntry.pair.injEq, Option.some.injEq, true_and]
          omega
        · rw [dif_neg hn] at h
          cases h

/-- Accepted entries are well-formed pairs. -/
theorem eq_map_rawEntry_of_validateEntries {rs : List RawEntry} {es : List Entry}
    (h : validateEntries rs = .ok es) : rs = es.map rawEntry := by
  induction rs generalizing es with
  | nil =>
    cases h
    rfl
  | cons r rs ih =>
    rw [validateEntries, List.mapM_cons] at h
    cases hr : validateEntry r with
    | error e =>
      rw [hr] at h
      cases h
    | ok e =>
      cases hs : rs.mapM validateEntry with
      | error e' =>
        rw [hr, hs] at h
        cases h
      | ok es' =>
        rw [hr, hs] at h
        cases h
        rw [List.map_cons, ← eq_rawEntry_of_validateEntry hr, ← ih hs]

/-- An accepted checkpoint fits the bounds and carries its entries as they arrived. -/
theorem validateCheckpoint_ok {bounds : InventoryBounds} {raw : Option RawCheckpoint}
    {cp : InventoryCheckpoint} (h : validateCheckpoint bounds raw = .ok cp) :
    cp.heldCount ≤ bounds.inventoryCapacity ∧
      ∃ rc, raw = some rc ∧ rc.entries = some (cp.entries.map rawEntry) := by
  cases raw with
  | none => cases h
  | some rc =>
    obtain ⟨sequence, cycle, index, count, heldCount, entries⟩ := rc
    cases entries with
    | none => cases h
    | some entries =>
      simp only [validateCheckpoint] at h
      split at h
      · split at h
        · cases h
        · next hb =>
          cases he : validateEntries entries with
          | error e =>
            rw [he] at h
            cases h
          | ok es =>
            rw [he] at h
            cases h
            refine ⟨?_, _, rfl, ?_⟩
            · dsimp only
              omega
            · rw [eq_map_rawEntry_of_validateEntries he]
      · cases h

/-- An accepted delta carries its additions as they arrived. -/
theorem validateDelta_ok {bounds : InventoryBounds} {raw : RawDeltaField} {d : InventoryDelta}
    (h : validateDelta bounds raw = .ok (some d)) :
    ∃ rd, raw = .delta rd ∧ rd.added = some (d.added.map rawEntry) := by
  cases raw with
  | none => cases h
  | malformed => cases h
  | delta rd =>
    obtain ⟨sequence, base, added, removed⟩ := rd
    cases added with
    | none => cases h
    | some added =>
      cases removed with
      | none => cases h
      | some removed =>
        simp only [validateDelta] at h
        split at h
        · split at h
          · cases h
          · cases ha : validateEntries added with
            | error e =>
              rw [ha] at h
              cases h
            | ok es =>
              rw [ha] at h
              simp only [bind, Except.bind] at h
              split at h
              · cases h
              · split at h
                · cases h
                · cases h
                  exact ⟨_, rfl, by rw [eq_map_rawEntry_of_validateEntries ha]⟩
        · cases h

end SpoolCache.Quorum

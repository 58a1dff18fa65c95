import SpoolCache.Store.Withdrawal

/-!
# The operations follow the discipline

Each operation of the store, run with the hook by the owner or without it by another process, is
a sequence of the steps that its process may take.
-/

namespace SpoolCache.Store

open SpoolCache.Base SpoolCache.Layout SpoolCache.Prefix SpoolCache.Quorum

section

variable {fileOk : Digest → TokenFile → Prop}

/-- Steps of a process with or without the hook. -/
def Steps (fileOk : Digest → TokenFile → Prop) (hooked : Bool) : RankState → RankState → Prop :=
  if hooked then Changes fileOk else Safes fileOk

/-- A process may take no step. -/
theorem Steps.refl (hooked : Bool) (s : RankState) : Steps fileOk hooked s s := by
  cases hooked
  · exact Relation.ReflTransGen.refl
  · exact Relation.ReflTransGen.refl

/-- Steps follow one another. -/
theorem Steps.trans {hooked : Bool} {a b c : RankState} (h : Steps fileOk hooked a b)
    (h' : Steps fileOk hooked b c) : Steps fileOk hooked a c := by
  cases hooked
  · exact Relation.ReflTransGen.trans h h'
  · exact Relation.ReflTransGen.trans h h'

/-- A safe step is a step of any process. -/
theorem Steps.of_safe {hooked : Bool} {a b : RankState} (h : Safe fileOk a b) :
    Steps fileOk hooked a b := by
  cases hooked
  · exact Relation.ReflTransGen.single h
  · exact Relation.ReflTransGen.single (.safe h)

/-- The steps of one process are changes that any process may make. -/
theorem Steps.changes {hooked : Bool} {a b : RankState} (h : Steps fileOk hooked a b) :
    Changes fileOk a b := by
  cases hooked
  · exact Safes.changes h
  · exact h

/-! ### Withdrawals -/

private theorem steps_recordWithdrawal (hooked : Bool) (s : RankState) (key : Digest) :
    Steps fileOk hooked s (recordWithdrawal hooked s key) := by
  cases hooked
  · exact Relation.ReflTransGen.refl
  · exact Relation.ReflTransGen.single (.withdraw s key)

/-- The report of a withdrawal leaves the files alone. -/
theorem files_recordWithdrawal (hooked : Bool) (s : RankState) (key : Digest) :
    (recordWithdrawal hooked s key).files = s.files := by
  unfold recordWithdrawal
  split <;> rfl

/-- The report of a withdrawal leaves the markers alone. -/
theorem markers_recordWithdrawal (hooked : Bool) (s : RankState) (key : Digest) :
    (recordWithdrawal hooked s key).markers = s.markers := by
  unfold recordWithdrawal
  split <;> rfl

/-- A withdrawal tells of nothing new. -/
theorem held_recordWithdrawal (hooked : Bool) (s : RankState) (key : Digest) :
    OrderedDict.SubDict (recordWithdrawal hooked s key).reporter.held s.reporter.held := by
  unfold recordWithdrawal
  split
  · exact (OrderedDict.SubDict.refl _).erase_left key
  · exact .refl _

private theorem not_mem_held_remove (r : InventoryReporter) (key : Digest) :
    key ∉ (r.remove key).held.keys := by
  change key ∉ (r.held.erase key).keys
  rw [OrderedDict.mem_keys_erase]
  exact fun h ↦ h.1 rfl

private theorem mem_markers_markWithdrawn (s : RankState) (key : Digest) :
    key ∈ (markWithdrawn s key).markers.keys :=
  (OrderedDict.mem_keys_set _ _ _ _).mpr (.inl rfl)

/-- The marker comes before the report. -/
theorem steps_withdraw (hooked : Bool) (s : RankState) (key : Digest) :
    Steps fileOk hooked s (recordWithdrawal hooked (markWithdrawn s key) key) :=
  (Steps.of_safe (.mark s key)).trans (steps_recordWithdrawal hooked _ key)

private theorem steps_quarantineManifest (hooked : Bool) (s : RankState) (key : Digest) :
    Steps fileOk hooked s (quarantineManifest hooked s key) := by
  have hw : Steps fileOk hooked s (recordWithdrawal hooked (markWithdrawn s key) key) :=
    steps_withdraw hooked s key
  have hm : key ∈ (recordWithdrawal hooked (markWithdrawn s key) key).markers.keys := by
    rw [markers_recordWithdrawal]
    exact mem_markers_markWithdrawn s key
  unfold quarantineManifest
  dsimp only
  split
  · exact hw
  · have hu := hw.trans (.of_safe (.unlink _ key hm))
    split
    · next hh =>
      subst hh
      -- the owner has withdrawn the entry, so its marker is not needed any more
      refine hu.trans (Relation.ReflTransGen.single (.release _ key ?_))
      exact not_mem_held_remove s.reporter key
    · exact hu

/-- A quarantine is made of steps. -/
theorem steps_quarantineBad (hooked : Bool) (s : RankState) (key : Digest) :
    Steps fileOk hooked s (quarantineBad hooked s key) := by
  unfold quarantineBad
  split
  · exact steps_withdraw hooked s key
  · exact steps_quarantineManifest hooked s key

/-- A quarantine tells of nothing new. -/
theorem held_quarantineBad (hooked : Bool) (s : RankState) (key : Digest) :
    OrderedDict.SubDict (quarantineBad hooked s key).reporter.held s.reporter.held := by
  have hw : OrderedDict.SubDict (recordWithdrawal hooked (markWithdrawn s key) key).reporter.held
      s.reporter.held := held_recordWithdrawal hooked (markWithdrawn s key) key
  unfold quarantineBad
  split
  · exact hw
  · unfold quarantineManifest
    dsimp only
    split
    · exact hw
    · split <;> exact hw

/-- With the hook a quarantined key is no longer told. -/
theorem not_mem_held_quarantineBad (s : RankState) (key : Digest) :
    key ∉ (quarantineBad true s key).reporter.held.keys := by
  have hw := not_mem_held_remove s.reporter key
  unfold quarantineBad
  split
  · exact hw
  · unfold quarantineManifest
    dsimp only
    split <;> exact hw

/-- A quarantine leaves the files of other keys alone. -/
theorem files_quarantineBad {hooked : Bool} {s : RankState} {key a : Digest} (h : a ≠ key) :
    (quarantineBad hooked s key).files.get? a = s.files.get? a := by
  have hw : (recordWithdrawal hooked (markWithdrawn s key) key).files = s.files :=
    files_recordWithdrawal hooked _ key
  have he : ((recordWithdrawal hooked (markWithdrawn s key) key).files.erase key).get? a =
      s.files.get? a := by
    rw [OrderedDict.get?_erase, if_neg h, hw]
  unfold quarantineBad
  split
  · rw [hw]
  · unfold quarantineManifest
    dsimp only
    split
    · rw [hw]
    · split <;> exact he

/-- An eviction is made of steps. -/
theorem steps_evict (hooked : Bool) (s : RankState) (key : Digest) :
    Steps fileOk hooked s (evict hooked s key).1 := by
  unfold evict
  split
  · exact .refl hooked s
  · split
    · exact .refl hooked s
    · refine (steps_withdraw hooked s key).trans (.of_safe (.unlink _ key ?_))
      rw [markers_recordWithdrawal]
      exact mem_markers_markWithdrawn s key

private theorem steps_evictAll (hooked : Bool) (s : RankState) (keys : List Digest) :
    Steps fileOk hooked s (evictAll hooked s keys).1 := by
  induction keys generalizing s with
  | nil => exact .refl hooked s
  | cons key keys ih => exact (steps_evict hooked s key).trans (ih _)

/-- A capacity batch is made of steps. -/
theorem steps_maintainCapacityBatch (hooked : Bool) (s : RankState)
    (triggerBytes remaining : Nat) :
    Steps fileOk hooked s (maintainCapacityBatch hooked s triggerBytes remaining).1 := by
  unfold maintainCapacityBatch
  split
  · exact .refl hooked s
  · exact steps_evictAll hooked s _

/-! ### Headers of open files -/

section

variable {config : StoreConfig}

/-- A valid header has a span that the inventory accepts. -/
theorem span_of_headerPayload {key : Digest} {header : TokenHeader} {segments : List PageSlice}
    (h : headerPayload config key header = .ok segments) :
    0 < header.spanTokens ∧ header.spanTokens ≤ maxCounter := by
  unfold headerPayload at h
  split at h
  · cases h
  · next hs => omega

/-- A valid header of a file and its slices. -/
theorem segments_of_headerPayload {key : Digest} {header : TokenHeader}
    {segments : List PageSlice} (h : headerPayload config key header = .ok segments) :
    config.layout.segments header.spanTokens header.kind = .ok segments := by
  unfold headerPayload at h
  split at h
  · cases h
  · split at h
    · cases h
    · split at h
      · cases h
      · split at h
        · cases h
        · obtain ⟨out, ho, h⟩ := bind_ok h
          dsimp only at h
          split at h
          · cases h
          · cases h
            exact ho

/-- What an open file is. -/
theorem openChunk_ok {s : RankState} {key : Digest} {allowWithdrawn : Bool}
    {desc : TokenFileDescriptor} (h : openChunk config s key allowWithdrawn = .ok desc) :
    (allowWithdrawn = false → key ∉ s.markers.keys) ∧
      ∃ file header segments, s.files.get? key = some file ∧ file.header = some header ∧
        headerPayload config key header = .ok segments ∧
        desc = ⟨key, header.parent, header.spanTokens, segments, header.kind⟩ := by
  unfold openChunk at h
  split at h
  · cases h
  · next hm =>
    refine ⟨fun hw hk ↦ hm ⟨hw, hk⟩, ?_⟩
    cases hf : s.files.get? key with
    | none =>
      rw [hf] at h
      cases h
    | some file =>
      cases hh : file.header with
      | none =>
        simp only [hf, hh] at h
        cases h
      | some header =>
        cases hp : headerPayload config key header with
        | error e =>
          simp only [hf, hh, hp] at h
          cases h
        | ok segments =>
          simp only [hf, hh, hp] at h
          cases h
          exact ⟨file, header, segments, rfl, hh, hp, rfl⟩

/-- A file that opens has a header for its key, with a span within the counter. -/
theorem headerSpan_of_openChunk {s : RankState} {key : Digest} {allowWithdrawn : Bool}
    {desc : TokenFileDescriptor} (h : openChunk config s key allowWithdrawn = .ok desc) :
    desc.key = key ∧ HeaderSpan s key desc.spanTokens ∧ 0 < desc.spanTokens ∧
      desc.spanTokens ≤ maxCounter := by
  obtain ⟨-, file, header, segments, hf, hh, hp, rfl⟩ := openChunk_ok h
  exact ⟨rfl, ⟨file, header, hf, hh, rfl⟩, span_of_headerPayload hp⟩

/-- Only a key without file and marker is reported as not found. -/
theorem openChunk_fileNotFound {s : RankState} {key : Digest} {allowWithdrawn : Bool}
    (h : openChunk config s key allowWithdrawn = .error .fileNotFound) :
    s.files.get? key = none ∧ (allowWithdrawn = false → key ∉ s.markers.keys) := by
  unfold openChunk at h
  split at h
  · cases h
  · next hm =>
    refine ⟨?_, fun hw hk ↦ hm ⟨hw, hk⟩⟩
    cases hf : s.files.get? key with
    | none => rfl
    | some file =>
      cases hh : file.header with
      | none =>
        simp only [hf, hh] at h
        cases h
      | some header =>
        cases hp : headerPayload config key header with
        | error e =>
          simp only [hf, hh, hp] at h
          cases h
        | ok segments =>
          simp only [hf, hh, hp] at h
          cases h

/-- Every offer of a scan is the span of a live file. -/
theorem live_of_mem_offers {s : RankState} {e : Digest × Nat} (h : e ∈ offers config s) :
    Live s e.1 e.2 ∧ 0 < e.2 ∧ e.2 ≤ maxCounter := by
  unfold offers at h
  obtain ⟨key, -, he⟩ := List.mem_filterMap.mp h
  cases ho : openChunk config s key false with
  | error err =>
    rw [ho] at he
    cases he
  | ok desc =>
    rw [ho] at he
    cases he
    obtain ⟨hk, hs, hv⟩ := headerSpan_of_openChunk ho
    rw [hk]
    exact ⟨⟨hs, (openChunk_ok ho).1 rfl⟩, hv⟩

/-- A bounded scan offers nothing that a full one does not. -/
theorem mem_offers_of_mem_scanOffers {s : RankState} {limit : Nat} {e : Digest × Nat}
    (h : e ∈ scanOffers config s limit) : e ∈ offers config s := by
  have hm := List.mem_of_mem_take h
  rwa [(List.perm_insertionSort _ _).mem_iff] at hm

/-! ### Chains and restores -/

/-- Any number of quarantines. -/
def Quarantines (hooked : Bool) : RankState → RankState → Prop :=
  Relation.ReflTransGen fun s s' ↦ ∃ key, s' = quarantineBad hooked s key

private theorem quarantines_bad (hooked : Bool) (s : RankState) (key : Digest) :
    Quarantines hooked s (quarantineBad hooked s key) := Relation.ReflTransGen.single ⟨key, rfl⟩

private theorem Quarantines.steps {hooked : Bool} {s s' : RankState} (h : Quarantines hooked s s') :
    Steps fileOk hooked s s' := by
  induction h with
  | refl => exact .refl hooked s
  | tail _ hlast ih =>
    obtain ⟨key, rfl⟩ := hlast
    exact ih.trans (steps_quarantineBad hooked _ key)

/-- The check of a chunk only quarantines. -/
theorem quarantines_validChunk (hooked : Bool) (s : RankState) (key : Digest)
    (header : TokenHeader) : Quarantines hooked s (validChunk config hooked s key header).1 := by
  unfold validChunk
  split
  · exact .refl
  · exact quarantines_bad hooked s key
  · split
    · exact quarantines_bad hooked s key
    · split
      · exact quarantines_bad hooked s key
      · exact .refl

private theorem quarantines_openNode (hooked : Bool) (s : RankState) (key : Digest) :
    Quarantines hooked s (openNode config hooked s key).1 := by
  unfold openNode
  split
  · exact .refl
  · exact quarantines_bad hooked s key
  · split <;> exact .refl

private theorem quarantines_chainBelow (hooked : Bool) (n : Nat) (s : RankState) (key : Digest) :
    Quarantines hooked s (chainBelow config hooked n s key).1 := by
  induction n generalizing s key with
  | zero =>
    have hn : Quarantines hooked s (openNode config hooked s key).1 :=
      quarantines_openNode hooked s key
    unfold chainBelow
    cases ho : openNode config hooked s key with
    | mk s1 r =>
      rw [ho] at hn
      cases r with
      | error e => exact hn
      | ok desc => exact hn.trans (quarantines_bad hooked s1 key)
  | succ m ih =>
    have hn : Quarantines hooked s (openNode config hooked s key).1 :=
      quarantines_openNode hooked s key
    unfold chainBelow
    cases ho : openNode config hooked s key with
    | mk s1 r =>
      rw [ho] at hn
      cases r with
      | error e => exact hn
      | ok desc =>
        dsimp only
        split
        · exact hn.trans (quarantines_bad hooked s1 key)
        · cases desc.parent with
          | none => exact hn
          | some parent =>
            have hb := ih s1 parent
            dsimp only
            cases hc : chainBelow config hooked m s1 parent with
            | mk s2 r2 =>
              rw [hc] at hb
              cases r2 with
              | error e => exact hn.trans hb
              | ok rest => exact hn.trans hb

private theorem quarantines_dataChain (hooked : Bool) (s : RankState) (entryId : Digest) :
    Quarantines hooked s (dataChain config hooked s entryId).1 := by
  have hn : Quarantines hooked s (openNode config hooked s entryId).1 :=
    quarantines_openNode hooked s entryId
  unfold dataChain
  cases ho : openNode config hooked s entryId with
  | mk s1 r =>
    rw [ho] at hn
    cases r with
    | error e => exact hn
    | ok desc =>
      dsimp only
      cases desc.parent with
      | none => exact hn
      | some parent =>
        have hb : Quarantines hooked s1 (chainBelow config hooked
            (desc.spanTokens / config.layout.chunkTokens - 1) s1 parent).1 :=
          quarantines_chainBelow hooked _ s1 parent
        dsimp only
        cases hc : chainBelow config hooked
            (desc.spanTokens / config.layout.chunkTokens - 1) s1 parent with
        | mk s2 r2 =>
          rw [hc] at hb
          cases r2 with
          | error e => exact hn.trans hb
          | ok rest => exact hn.trans hb

private theorem quarantines_stateFile (hooked : Bool) (s : RankState) (entryId : Digest)
    (span : Nat) :
    Quarantines hooked s (stateFile config hooked s entryId span).1 := by
  unfold stateFile
  dsimp only
  split
  · exact .refl
  · exact quarantines_bad hooked s _
  · split
    · exact quarantines_bad hooked s _
    · exact .refl

/-- A walk along a chain changes the root by quarantines only. -/
theorem quarantines_chain (hooked : Bool) (s : RankState) (entryId : Digest) :
    Quarantines hooked s (chain config hooked s entryId).1 := by
  have hd : Quarantines hooked s (dataChain config hooked s entryId).1 :=
    quarantines_dataChain hooked s entryId
  unfold chain
  cases hc : dataChain config hooked s entryId with
  | mk s1 r =>
    rw [hc] at hd
    cases r with
    | error e => exact hd
    | ok descending =>
      dsimp only
      split
      · next first last _ _ =>
        split
        · exact hd
        · split
          · have hs : Quarantines hooked s1
                (stateFile config hooked s1 entryId last.spanTokens).1 :=
              quarantines_stateFile hooked s1 entryId last.spanTokens
            cases hf : stateFile config hooked s1 entryId last.spanTokens with
            | mk s2 r2 =>
              rw [hf] at hs
              cases r2 with
              | error e => exact hd.trans hs
              | ok state => exact hd.trans hs
          · exact hd
      · exact hd

private theorem state_lookup (hooked : Bool) (s : RankState) (entryId : Digest) :
    (lookup config hooked s entryId).1 = (chain config hooked s entryId).1 := by
  unfold lookup
  split
  all_goals
    next hc => rw [hc]

/-- A lookup only quarantines. -/
theorem quarantines_lookup (hooked : Bool) (s : RankState) (entryId : Digest) :
    Quarantines hooked s (lookup config hooked s entryId).1 := by
  rw [state_lookup]
  exact quarantines_chain hooked s entryId

/-- Entering a view quarantines, and then pins if it returns. -/
theorem restoreView_eq (config : StoreConfig) (hooked : Bool) (s : RankState) (entryId : Digest) :
    ∃ pins, (restoreView config hooked s entryId).1 =
      { (lookup config hooked s entryId).1 with pins := pins } ∧
      (pins = (lookup config hooked s entryId).1.pins ∨
        ∃ keys, pins = (lookup config hooked s entryId).1.pins ++ [keys]) := by
  unfold restoreView
  split
  · next hl =>
    rw [hl]
    exact ⟨_, rfl, .inl rfl⟩
  · next hl =>
    rw [hl]
    exact ⟨_, rfl, .inr ⟨_, rfl⟩⟩
  · next hl =>
    rw [hl]
    exact ⟨_, rfl, .inr ⟨_, rfl⟩⟩

/-- A restore is made of steps. -/
theorem steps_restoreView (hooked : Bool) (s : RankState) (entryId : Digest) :
    Steps fileOk hooked s (restoreView config hooked s entryId).1 := by
  have hl : Steps fileOk hooked s (lookup config hooked s entryId).1 :=
    (quarantines_lookup hooked s entryId).steps
  obtain ⟨pins, he, -⟩ := restoreView_eq config hooked s entryId
  rw [he]
  exact hl.trans (.of_safe (.pin _ _))

end

/-- Touching files changes their times only. -/
theorem steps_touchAll (hooked : Bool)
    (ht : ∀ key file time, fileOk key file → fileOk key { file with modified := time })
    (times : Nat → Nat) (s : RankState) (keys : List Digest) :
    Steps fileOk hooked s (touchAll times s keys).1 := by
  induction keys generalizing s times with
  | nil => exact .refl hooked s
  | cons key keys ih =>
    unfold touchAll
    cases hf : s.files.get? key with
    | none => exact .refl hooked s
    | some file =>
      have hstep := Safe.rewrite s key file { file with modified := times 1 } hf rfl
        (ht key file (times 1))
      exact (Steps.of_safe hstep).trans (ih _ _)

end

end SpoolCache.Store

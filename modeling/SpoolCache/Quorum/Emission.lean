import SpoolCache.Quorum.Receiver
import SpoolCache.Quorum.Reporter

/-!
# What a reporter's run emits

Over a whole run the sequence number determines the observed image. Every report carries a page
of the image of its checkpoint sequence, that image is part of what the worker holds at that
moment, and its delta leads from the image of its base sequence, if there is one, to the image
of its own; a gap delta has a base that was never observed.
-/

namespace SpoolCache.Quorum.InventoryReporter

open SpoolCache.Base
open QuorumCatalog (updatedImage pushBounded)
open RankView (get?_updatedImage)

/-! ### The reporter's own invariant -/

/-- Held entries fit the bound, a clean reporter has told everything, and the rolling
checkpoint is of the observed image. -/
structure Consistent (batch : Nat) (r : InventoryReporter) : Prop where
  bounded : r.held.size ≤ r.config.bounds.inventoryCapacity
  clean : r.dirty = false → OrderedDict.Same r.held r.observed
  items : r.checkpointItems = r.observed.sortedItems
  checkpointSequence : r.checkpointSequence = r.sequence
  index : r.checkpointIndex < pageCount batch r.checkpointItems.length

private theorem length_selectEntries_le (bounds : InventoryBounds) (count : Nat)
    (entries : List RawEntry) (h : count ≤ bounds.inventoryCapacity) :
    count + (selectEntries bounds count entries).length ≤ bounds.inventoryCapacity := by
  induction entries generalizing count with
  | nil => simpa [selectEntries] using h
  | cons item items ih =>
    unfold selectEntries
    split
    · simpa using h
    · next ho =>
      have hle := (bounds.not_overBound_iff (count + 1)).mp (by simpa using ho)
      have hi := ih (count + 1) hle
      simp only [List.length_cons]
      omega

private theorem size_popOldest (held : Image) (h : 0 < held.size) :
    (popOldest held).size + 1 = held.size := by
  unfold popOldest
  cases hk : held.keys with
  | nil =>
    rw [← OrderedDict.length_keys, hk] at h
    cases h
  | cons k ks =>
    apply OrderedDict.size_erase_of_mem
    rw [hk]
    exact List.mem_cons_self

private theorem consistent_create (batch : Nat) (config : ReporterConfig) :
    Consistent batch (create config) := by
  refine ⟨Nat.zero_le _, fun _ ↦ .refl _, rfl, rfl, ?_⟩
  exact pageCount_pos batch 0

private theorem size_addHeld_le (bounds : InventoryBounds) (held : Image) (k : Digest) (s : Span)
    (h : held.size ≤ bounds.inventoryCapacity) :
    ((if bounds.overBound ((held.erase k).size + 1) then popOldest (held.erase k)
      else held.erase k).set k s).size ≤ bounds.inventoryCapacity := by
  have hset : ∀ d : Image, (d.set k s).size ≤ d.size + 1 := by
    intro d
    rw [OrderedDict.size_set]
    split <;> omega
  split
  · next ho =>
    have hlt := (bounds.overBound_iff _).mp ho
    have hle := OrderedDict.size_erase_le held k
    have hpos := bounds.inventoryCapacity_pos
    have hp := size_popOldest (held.erase k) (by omega)
    have hs := hset (popOldest (held.erase k))
    omega
  · next ho =>
    have hle := (bounds.not_overBound_iff _).mp (by simpa using ho)
    have hs := hset (held.erase k)
    omega

/-- Adding an entry with the value it already has changes nothing, since it never evicts. -/
private theorem same_addHeld {bounds : InventoryBounds} {held : Image} {k : Digest} {s : Span}
    (h : held.size ≤ bounds.inventoryCapacity) (hk : held.get? k = some s) :
    OrderedDict.Same ((if bounds.overBound ((held.erase k).size + 1) then popOldest (held.erase k)
      else held.erase k).set k s) held := by
  have hmem : k ∈ held.keys := (held.mem_keys_iff k).mpr ⟨s, hk⟩
  have hsize := held.size_erase_of_mem k hmem
  have ho : bounds.overBound ((held.erase k).size + 1) = false := by
    rw [bounds.not_overBound_iff]
    omega
  rw [ho]
  intro x
  rw [if_neg (by decide), OrderedDict.get?_set, OrderedDict.get?_erase]
  by_cases hx : x = k
  · rw [if_pos hx, hx, hk]
  · rw [if_neg hx, if_neg hx]

/-- A mutation changes only the held image, within the bound, and marks the reporter dirty
unless the contents stay the same. -/
theorem mutate_cases (r : InventoryReporter) (m : Mutation)
    (hb : r.held.size ≤ r.config.bounds.inventoryCapacity) :
    ∃ held dirty, r.mutate m = { r with held := held, dirty := dirty } ∧
      held.size ≤ r.config.bounds.inventoryCapacity ∧
      (dirty = false → r.dirty = false ∧ OrderedDict.Same held r.held) := by
  have hsame : ∃ held dirty, r = { r with held := held, dirty := dirty } ∧
      held.size ≤ r.config.bounds.inventoryCapacity ∧
      (dirty = false → r.dirty = false ∧ OrderedDict.Same held r.held) :=
    ⟨r.held, r.dirty, rfl, hb, fun hd ↦ ⟨hd, .refl _⟩⟩
  cases m with
  | replace entries =>
    simp only [mutate, replace]
    cases hv : validateEntries (selectEntries r.config.bounds 0 entries) with
    | error e => exact hsame
    | ok selected =>
      refine ⟨.ofItems selected.reverse, true, rfl, ?_, fun hd ↦ (by cases hd)⟩
      have hsel := length_selectEntries_le r.config.bounds 0 entries (Nat.zero_le _)
      have hlen := congrArg List.length (eq_map_rawEntry_of_validateEntries hv)
      have hle := OrderedDict.size_ofItems_le selected.reverse
      rw [List.length_map] at hlen
      rw [List.length_reverse] at hle
      omega
  | add entryId span =>
    simp only [mutate, add]
    cases hv : validateEntry (.pair entryId span) with
    | error e => exact hsame
    | ok e =>
      obtain ⟨k, s⟩ := e
      refine ⟨_, _, rfl, size_addHeld_le _ r.held k s hb, ?_⟩
      intro hd
      rw [Bool.or_eq_false_iff, decide_eq_false_iff_not, not_not] at hd
      exact ⟨hd.1, same_addHeld hb hd.2⟩
  | remove entryId =>
    refine ⟨_, _, rfl, (OrderedDict.size_erase_le _ _).trans hb, ?_⟩
    intro hd
    rw [Bool.or_eq_false_iff, Option.isSome_eq_false_iff, Option.isNone_iff_eq_none] at hd
    have hk := (OrderedDict.get?_eq_none_iff _ _).mp hd.2
    rw [OrderedDict.erase_of_not_mem _ _ hk]
    exact ⟨hd.1, .refl _⟩

/-- Mutations keep the invariant and everything that was told. -/
theorem consistent_mutate {batch : Nat} {r : InventoryReporter} (h : Consistent batch r)
    (m : Mutation) :
    Consistent batch (r.mutate m) ∧ (r.mutate m).config = r.config ∧
      (r.mutate m).sequence = r.sequence ∧ (r.mutate m).observed = r.observed ∧
      (r.mutate m).history = r.history := by
  obtain ⟨held, dirty, he, hb, hd⟩ := mutate_cases r m h.bounded
  rw [he]
  refine ⟨⟨hb, ?_, h.items, h.checkpointSequence, h.index⟩, rfl, rfl, rfl, rfl⟩
  intro hclean
  obtain ⟨hdirty, hsame⟩ := hd hclean
  exact hsame.trans (h.clean hdirty)

/-- Notices of files keep a reporter consistent. -/
theorem consistent_mutateAll {batch : Nat} {r : InventoryReporter} (h : Consistent batch r)
    (mutations : List Mutation) :
    Consistent batch (mutations.foldl mutate r) ∧
      (mutations.foldl mutate r).config = r.config := by
  induction mutations generalizing r with
  | nil => exact ⟨h, rfl⟩
  | cons m mutations ih =>
    obtain ⟨hc, hcfg, -⟩ := consistent_mutate h m
    obtain ⟨hc', hcfg'⟩ := ih hc
    exact ⟨hc', hcfg'.trans hcfg⟩

/-! ### Telling a mutation -/

private theorem mem_removedKeys {r : InventoryReporter} {k : Digest} {s : Span}
    (hk : r.observed.get? k = some s) (hn : k ∉ r.removedKeys) : r.held.get? k = some s := by
  by_contra hne
  apply hn
  unfold removedKeys
  rw [(List.perm_insertionSort _ _).mem_iff]
  apply List.mem_map.mpr
  refine ⟨(k, s), List.mem_filter.mpr ⟨?_, by simpa using hne⟩, rfl⟩
  exact (OrderedDict.get?_eq_some_iff _ _ _).mp hk

private theorem held_of_mem_addedEntries {r : InventoryReporter} {limit : Nat} {e : Entry}
    (h : e ∈ r.addedEntries limit) : r.held.get? e.1 = some e.2 := by
  have hm := List.mem_of_mem_take h
  rw [(List.perm_insertionSort _ _).mem_iff] at hm
  exact (OrderedDict.get?_eq_some_iff _ _ _).mpr (List.mem_filter.mp hm).1

/-- After telling, only held entries are observed. -/
theorem observed_sub_advance (r : InventoryReporter) (batch : Nat) :
    OrderedDict.SubDict (r.advance batch).observed r.held := by
  unfold advance
  split
  · intro k s hk
    rcases get?_updatedImage hk with hadd | ⟨hold, hrem⟩
    · exact held_of_mem_addedEntries hadd
    · exact mem_removedKeys hold hrem
  · exact .refl _

/-- The cursors do not change what is held. -/
theorem held_advance (r : InventoryReporter) (batch : Nat) : (r.advance batch).held = r.held := by
  unfold advance
  split <;> rfl

/-- The cursors do not change the configuration. -/
theorem config_advance (r : InventoryReporter) (batch : Nat) :
    (r.advance batch).config = r.config := by
  unfold advance
  split <;> rfl

/-- One `observe` either keeps what was told or tells a mutation. -/
theorem observe_cases (r : InventoryReporter) (batch : Nat) :
    (r.observe batch = { r with dirty := decide (r.held.size ≠ r.observed.size) } ∧
        (r.dirty = false ∨ OrderedDict.Same r.held r.observed)) ∨
      r.observe batch = { (r.advance batch).restartCheckpoint with
        dirty := decide (r.held.size ≠ (r.advance batch).observed.size) } := by
  unfold observe
  dsimp only
  by_cases h : r.dirty = true ∧ OrderedDict.sameItems r.held r.observed = false
  · rw [if_pos h]
    refine .inr ?_
    simp only [restartCheckpoint, held_advance]
  · rw [if_neg h]
    refine .inl ⟨rfl, ?_⟩
    rw [not_and_or, Bool.not_eq_true, Bool.not_eq_false, OrderedDict.sameItems_iff] at h
    exact h

/-- An observation does not change what is held. -/
theorem held_observe (r : InventoryReporter) (batch : Nat) : (r.observe batch).held = r.held := by
  rcases observe_cases r batch with ⟨he, -⟩ | he
  · rw [he]
  · rw [he]
    exact held_advance r batch

/-- An observation tells of entries that are held. -/
theorem observe_spec {batch : Nat} {r : InventoryReporter} (h : Consistent batch r) :
    Consistent batch (r.observe batch) ∧ (r.observe batch).config = r.config ∧
      OrderedDict.SubDict (r.observe batch).observed (r.observe batch).held := by
  have hclean : ∀ m : Image, OrderedDict.SubDict m r.held →
      decide (r.held.size ≠ m.size) = false → OrderedDict.Same r.held m := by
    intro m hsub hd
    rw [decide_eq_false_iff_not, not_not] at hd
    exact (hsub.same_of_size_eq hd.symm).symm
  rcases observe_cases r batch with ⟨he, hsame⟩ | he
  · have hs : OrderedDict.Same r.held r.observed := by
      rcases hsame with hd | hs
      · exact h.clean hd
      · exact hs
    rw [he]
    exact ⟨⟨h.bounded, fun _ ↦ hs, h.items, h.checkpointSequence, h.index⟩, rfl,
      .of_same hs.symm⟩
  · have hsub := observed_sub_advance r batch
    rw [he]
    refine ⟨⟨?_, ?_, rfl, rfl, pageCount_pos _ _⟩, config_advance r batch, ?_⟩
    · change (r.advance batch).held.size ≤ (r.advance batch).config.bounds.inventoryCapacity
      rw [held_advance, config_advance]
      exact h.bounded
    · intro hd
      change OrderedDict.Same (r.advance batch).held (r.advance batch).observed
      rw [held_advance]
      exact hclean _ hsub hd
    · change OrderedDict.SubDict (r.advance batch).observed (r.advance batch).held
      rw [held_advance]
      exact hsub

/-- Moving the cursors keeps a reporter consistent. -/
theorem consistent_advanceCursors {batch : Nat} {r : InventoryReporter}
    (h : Consistent batch r) : Consistent batch (r.advanceCursors batch) := by
  refine ⟨h.bounded, h.clean, h.items, h.checkpointSequence, ?_⟩
  change (if pageCount batch r.checkpointItems.length ≤ r.checkpointIndex + 1 then 0
    else r.checkpointIndex + 1) < pageCount batch r.checkpointItems.length
  split
  · exact pageCount_pos _ _
  · omega

/-! ### The log of observed images -/

/-- A delta leads from the logged image of its base, if any, to a logged image. -/
structure DeltaOk (log : List (Nat × Image)) (bound : Nat) (d : InventoryDelta) : Prop where
  next : d.sequence = d.baseSequence + 1
  le : d.sequence ≤ bound
  leads : ∀ m, (d.baseSequence, m) ∈ log → (d.sequence, updatedImage m d) ∈ log

/-- The log records the current image, one image for each sequence number, and the retained
deltas lead along it. -/
structure Logged (log : List (Nat × Image)) (r : InventoryReporter) : Prop where
  mem : (r.sequence, r.observed) ∈ log
  le : ∀ n m, (n, m) ∈ log → n ≤ r.sequence
  unique : ∀ n a b, (n, a) ∈ log → (n, b) ∈ log → a = b
  deltas : ∀ d ∈ r.history, DeltaOk log r.sequence d

/-- Later images have later numbers, so they do not concern a delta. -/
theorem DeltaOk.append {log : List (Nat × Image)} {bound n : Nat} {d : InventoryDelta}
    (h : DeltaOk log bound d) (hn : bound ≤ n) (m : Image) :
    DeltaOk (log ++ [(n, m)]) n d := by
  have hnext := h.next
  have hle := h.le
  refine ⟨hnext, by omega, ?_⟩
  intro m' hm
  rcases List.mem_append.mp hm with hold | hnew
  · exact List.mem_append_left _ (h.leads m' hold)
  · rw [List.mem_singleton, Prod.mk.injEq] at hnew
    omega

/-- A bounded list holds old elements and the new one. -/
theorem mem_pushBounded {α : Type} {limit : Nat} {l : List α} {a b : α}
    (h : b ∈ pushBounded limit l a) : b ∈ l ∨ b = a := by
  have hm := List.mem_of_mem_drop h
  rw [List.mem_append, List.mem_singleton] at hm
  exact hm

/-- A step that keeps what was told keeps the log. -/
theorem Logged.append_same {log : List (Nat × Image)} {r r' : InventoryReporter}
    (h : Logged log r) (hs : r'.sequence = r.sequence) (ho : r'.observed = r.observed)
    (hh : r'.history = r.history) : Logged (log ++ [(r'.sequence, r'.observed)]) r' := by
  rw [hs, ho]
  have hmem : ∀ x, x ∈ log ++ [(r.sequence, r.observed)] ↔ x ∈ log := by
    intro x
    rw [List.mem_append, List.mem_singleton]
    constructor
    · rintro (hx | rfl)
      · exact hx
      · exact h.mem
    · exact .inl
  refine ⟨?_, ?_, ?_, ?_⟩
  · rw [hs, ho, hmem]
    exact h.mem
  · intro n m hm
    rw [hs]
    exact h.le n m ((hmem _).mp hm)
  · intro n a b ha hb
    exact h.unique n a b ((hmem _).mp ha) ((hmem _).mp hb)
  · intro d hd
    rw [hh] at hd
    rw [hs]
    exact (h.deltas d hd).append le_rfl r.observed

/-- Telling a mutation extends the log by one image. -/
theorem Logged.append_advance {log : List (Nat × Image)} {r : InventoryReporter}
    (h : Logged log r) (batch : Nat) :
    Logged (log ++ [((r.advance batch).sequence, (r.advance batch).observed)])
      (r.advance batch) := by
  have hlt : r.sequence < (r.advance batch).sequence := by
    unfold advance
    split
    · exact Nat.lt_succ_self _
    · exact Nat.lt_add_of_pos_right (by decide)
  refine ⟨by simp, ?_, ?_, ?_⟩
  · intro n m hm
    rcases List.mem_append.mp hm with hold | hnew
    · have hle := h.le n m hold
      omega
    · rw [List.mem_singleton, Prod.mk.injEq] at hnew
      omega
  · intro n a b ha hb
    rw [List.mem_append, List.mem_singleton, Prod.mk.injEq] at ha hb
    rcases ha with ha | ha
    · rcases hb with hb | hb
      · exact h.unique n a b ha hb
      · have hle := h.le n a ha
        omega
    · rcases hb with hb | hb
      · have hle := h.le n b hb
        omega
      · rw [ha.2, hb.2]
  · intro d hd
    generalize hm : (r.advance batch).observed = m
    unfold advance at hd hlt hm ⊢
    split at hd
    · next hr =>
      rw [if_pos hr] at hlt hm ⊢
      rcases mem_pushBounded hd with hold | rfl
      · exact (h.deltas d hold).append (Nat.le_succ _) m
      · -- the new delta: its base is the current image
        refine ⟨rfl, le_rfl, ?_⟩
        intro m' hm'
        rcases List.mem_append.mp hm' with hold | hnew
        · have he := h.unique _ _ _ hold h.mem
          rw [he]
          exact List.mem_append_right _ (by simp [← hm, deltaOf])
        · rw [List.mem_singleton, Prod.mk.injEq] at hnew
          have hb : (r.deltaOf batch).baseSequence = r.sequence := rfl
          dsimp only at hnew
          omega
    · next hr =>
      rw [if_neg hr] at hlt hm ⊢
      -- the gap delta: no image has the skipped number
      rw [List.mem_singleton] at hd
      subst hd
      refine ⟨rfl, le_rfl, ?_⟩
      intro m' hm'
      have hb : r.gapDelta.baseSequence = r.sequence + 1 := rfl
      rcases List.mem_append.mp hm' with hold | hnew
      · have hle := h.le _ _ hold
        omega
      · rw [List.mem_singleton, Prod.mk.injEq] at hnew
        dsimp only at hnew
        omega

private theorem Logged.append_observe {log : List (Nat × Image)} {r : InventoryReporter}
    (h : Logged log r) (batch : Nat) :
    Logged (log ++ [((r.observe batch).sequence, (r.observe batch).observed)])
      (r.observe batch) := by
  rcases observe_cases r batch with ⟨he, -⟩ | he
  · rw [he]
    exact h.append_same rfl rfl rfl
  · obtain ⟨hm, hl, hu, hd⟩ := h.append_advance batch
    rw [he]
    exact ⟨hm, hl, hu, hd⟩

/-! ### Reports of a run -/

/-- The batch size a report is cut with. -/
def batchOf (batchSize : PyInt) : Nat := (batchSize.getD 0).toNat

/-- What one report says, relative to the log of its run. -/
structure EmissionOk (config : ReporterConfig) (batch : Nat) (log : List (Nat × Image))
    (e : Emission) : Prop where
  rank : e.report.rank = config.rank
  generation : e.report.generation = config.generation
  generationEpoch : e.report.generationEpoch = config.generationEpoch
  batch_pos : 0 < batch
  mem : (e.report.checkpoint.sequence, e.observed) ∈ log
  count : e.report.checkpoint.count = pageCount batch e.observed.size
  heldCount : e.report.checkpoint.heldCount = e.observed.size
  entries : e.report.checkpoint.entries =
    page batch e.report.checkpoint.index e.observed.sortedItems
  index_lt : e.report.checkpoint.index < e.report.checkpoint.count
  held : OrderedDict.SubDict e.observed e.held
  delta : ∀ d, e.report.delta = some d → DeltaOk log e.report.checkpoint.sequence d

private theorem EmissionOk.append {config : ReporterConfig} {batch n : Nat}
    {log : List (Nat × Image)} {e : Emission} (h : EmissionOk config batch log e)
    (hn : e.report.checkpoint.sequence ≤ n) (m : Image) :
    EmissionOk config batch (log ++ [(n, m)]) e := by
  refine ⟨h.rank, h.generation, h.generationEpoch, h.batch_pos, List.mem_append_left _ h.mem,
    h.count, h.heldCount, h.entries, h.index_lt, h.held, ?_⟩
  intro d hd
  have ha := (h.delta d hd).append hn m
  exact ⟨ha.next, (h.delta d hd).le, ha.leads⟩

/-- A report is about the image just observed, and the cursors move on. -/
theorem nextReport_ok {r r' : InventoryReporter} {batchSize : PyInt}
    {report : WorkerInventoryReport} (h : r.nextReport batchSize = .ok (report, r')) :
    0 < batchOf batchSize ∧
      r' = (r.observe (batchOf batchSize)).advanceCursors (batchOf batchSize) ∧
      report = ⟨(r.observe (batchOf batchSize)).config.rank,
        (r.observe (batchOf batchSize)).config.generation,
        (r.observe (batchOf batchSize)).config.generationEpoch,
        (r.observe (batchOf batchSize)).checkpointPage (batchOf batchSize),
        (r.observe (batchOf batchSize)).nextDelta⟩ := by
  unfold nextReport at h
  cases batchSize with
  | none => cases h
  | some n =>
    dsimp only at h
    split at h
    · cases h
    · next hn =>
      cases h
      refine ⟨?_, rfl, rfl⟩
      change 0 < n.toNat
      omega

/-- Invariant of a run: reporter, log of observed images, and reports so far in order. -/
structure RunInv (config : ReporterConfig) (batch : Nat) (log : List (Nat × Image))
    (es : List Emission) (r : InventoryReporter) : Prop where
  config_eq : r.config = config
  consistent : Consistent batch r
  logged : Logged log r
  emissions : ∀ e ∈ es, EmissionOk config batch log e
  le : ∀ e ∈ es, e.report.checkpoint.sequence ≤ r.sequence
  ordered : es.Pairwise fun a b ↦ a.report.checkpoint.sequence ≤ b.report.checkpoint.sequence

/-- A new report of a consistent reporter is as described. -/
theorem emissionOk_nextReport {config : ReporterConfig} {log : List (Nat × Image)}
    {r r' : InventoryReporter} {batchSize : PyInt} {report : WorkerInventoryReport}
    (hc : r.config = config) (hr : Consistent (batchOf batchSize) r) (hl : Logged log r)
    (h : r.nextReport batchSize = .ok (report, r')) :
    EmissionOk config (batchOf batchSize) (log ++ [(r'.sequence, r'.observed)])
        ⟨report, r'.held, r'.observed⟩ ∧
      report.checkpoint.sequence = r'.sequence ∧ Consistent (batchOf batchSize) r' ∧
      r'.config = config ∧ Logged (log ++ [(r'.sequence, r'.observed)]) r' := by
  obtain ⟨hb, rfl, rfl⟩ := nextReport_ok h
  obtain ⟨ho, hcfg, hsub⟩ := observe_spec hr
  have hlog := hl.append_observe (batchOf batchSize)
  have hlen : (r.observe (batchOf batchSize)).checkpointItems.length =
      (r.observe (batchOf batchSize)).observed.size := by
    rw [ho.items, OrderedDict.length_sortedItems]
  refine ⟨⟨by rw [hcfg, hc], by rw [hcfg, hc], by rw [hcfg, hc], hb, ?_, ?_, hlen, ?_, ho.index,
    hsub, ?_⟩, ho.checkpointSequence, consistent_advanceCursors ho, hcfg.trans hc,
    ⟨hlog.mem, hlog.le, hlog.unique, hlog.deltas⟩⟩
  · have hmem := hlog.mem
    rw [← ho.checkpointSequence] at hmem
    exact List.mem_append_right _ (by simp [checkpointPage, ho.checkpointSequence,
      advanceCursors])
  · exact congrArg (pageCount _) hlen
  · exact congrArg (page _ _) ho.items
  · intro d hd
    have hok := hlog.deltas d (List.mem_of_getElem? hd)
    exact ⟨hok.next, hok.le.trans ho.checkpointSequence.ge, hok.leads⟩

private theorem RunInv.step {config : ReporterConfig} {batchSize : PyInt} {log : List (Nat × Image)}
    {es : List Emission} {r : InventoryReporter}
    (h : RunInv config (batchOf batchSize) log es r) (op : Op) :
    RunInv config (batchOf batchSize)
      (log ++ [((r.step batchSize op).1.sequence, (r.step batchSize op).1.observed)])
      (es ++ (r.step batchSize op).2.toList) (r.step batchSize op).1 := by
  have hkeep : ∀ r' : InventoryReporter, r'.config = r.config → r'.sequence = r.sequence →
      r'.observed = r.observed → r'.history = r.history → Consistent (batchOf batchSize) r' →
      RunInv config (batchOf batchSize) (log ++ [(r'.sequence, r'.observed)]) (es ++ []) r' := by
    intro r' hcfg hs ho hh hcons
    refine ⟨hcfg.trans h.config_eq, hcons, h.logged.append_same hs ho hh, ?_, ?_, ?_⟩
    · intro e he
      rw [List.append_nil] at he
      exact (h.emissions e he).append (by rw [hs]; exact h.le e he) _
    · intro e he
      rw [List.append_nil] at he
      rw [hs]
      exact h.le e he
    · rw [List.append_nil]
      exact h.ordered
  cases op with
  | mutate m =>
    obtain ⟨hcons, hcfg, hs, ho, hh⟩ := consistent_mutate h.consistent m
    exact hkeep _ hcfg hs ho hh hcons
  | report =>
    simp only [InventoryReporter.step]
    cases hr : r.nextReport batchSize with
    | error e => exact hkeep r rfl rfl rfl rfl h.consistent
    | ok p =>
      obtain ⟨report, r'⟩ := p
      obtain ⟨hok, hseq, hcons, hcfg, hlog⟩ :=
        emissionOk_nextReport h.config_eq h.consistent h.logged hr
      have hle : r.sequence ≤ r'.sequence :=
        hlog.le _ _ (List.mem_append_left _ h.logged.mem)
      dsimp only [Option.toList]
      refine ⟨hcfg, hcons, hlog, ?_, ?_, ?_⟩
      · intro e he
        rcases List.mem_append.mp he with hold | hnew
        · exact (h.emissions e hold).append ((h.le e hold).trans hle) _
        · rw [List.mem_singleton] at hnew
          rw [hnew]
          exact hok
      · intro e he
        rcases List.mem_append.mp he with hold | hnew
        · exact (h.le e hold).trans hle
        · rw [List.mem_singleton] at hnew
          rw [hnew]
          exact hseq.le
      · rw [List.pairwise_append]
        refine ⟨h.ordered, List.pairwise_singleton _ _, ?_⟩
        intro a ha b hb
        rw [List.mem_singleton] at hb
        rw [hb]
        change a.report.checkpoint.sequence ≤ report.checkpoint.sequence
        rw [hseq]
        exact (h.le a ha).trans hle

/-- The reporter after a run. -/
def runOps (batchSize : PyInt) (r : InventoryReporter) (ops : List Op) : InventoryReporter :=
  ops.foldl (fun r op ↦ (r.step batchSize op).1) r

/-- The invariant holds at the end of a run, for everything the run emitted. -/
theorem RunInv.run {config : ReporterConfig} {batchSize : PyInt} (past : List (Nat × Image))
    {es : List Emission} {r : InventoryReporter}
    (h : RunInv config (batchOf batchSize) (past ++ [(r.sequence, r.observed)]) es r)
    (ops : List Op) :
    RunInv config (batchOf batchSize) (past ++ emittedImages batchSize r ops)
      (es ++ InventoryReporter.emissions batchSize r ops) (runOps batchSize r ops) := by
  induction ops generalizing past es r with
  | nil =>
    rw [emittedImages, InventoryReporter.emissions, List.append_nil]
    exact h
  | cons op ops ih =>
    have hr := ih _ (h.step op)
    rw [List.append_assoc, List.append_assoc] at hr
    exact hr

/-! ### Runs in parts -/

/-- The reports of a longer run go on from the state of the shorter one. -/
theorem emissions_append (batchSize : PyInt) (r : InventoryReporter) (ops more : List Op) :
    emissions batchSize r (ops ++ more) =
      emissions batchSize r ops ++ emissions batchSize (runOps batchSize r ops) more := by
  induction ops generalizing r with
  | nil => rfl
  | cons op ops ih =>
    rw [List.cons_append, emissions, emissions, ih, List.append_assoc]
    rfl

/-- Mutations alone emit nothing. -/
theorem run_mutations (batchSize : PyInt) (r : InventoryReporter) (mutations : List Mutation) :
    runOps batchSize r (mutations.map Op.mutate) = mutations.foldl mutate r ∧
      emissions batchSize r (mutations.map Op.mutate) = [] := by
  induction mutations generalizing r with
  | nil => exact ⟨rfl, rfl⟩
  | cons m mutations ih =>
    obtain ⟨hr, he⟩ := ih (r.mutate m)
    refine ⟨hr, ?_⟩
    rw [List.map_cons, emissions]
    exact he

/-! ### One worker process -/

/-- The reporter after its startup: any mutations of a new reporter, then `startup`. -/
def started (config : ReporterConfig) (mutations : List Mutation) : InventoryReporter :=
  ((mutations.foldl mutate (create config)).startup).2

/-- The startup image of the worker. -/
def startupImage (config : ReporterConfig) (mutations : List Mutation) : List Entry :=
  ((mutations.foldl mutate (create config)).startup).1

/-- Before its startup a reporter has told nothing. -/
theorem consistent_mutations (batch : Nat) (config : ReporterConfig)
    (mutations : List Mutation) :
    Consistent batch (mutations.foldl mutate (create config)) ∧
      (mutations.foldl mutate (create config)).config = config ∧
      (mutations.foldl mutate (create config)).sequence = 0 ∧
      (mutations.foldl mutate (create config)).history = [] ∧
      (mutations.foldl mutate (create config)).checkpointIndex = 0 := by
  induction mutations using List.reverseRecOn with
  | nil => exact ⟨consistent_create batch config, rfl, rfl, rfl, rfl⟩
  | append_singleton mutations m ih =>
    obtain ⟨hc, hcfg, hs, hh, hi⟩ := ih
    rw [List.foldl_append]
    obtain ⟨hc', hcfg', hs', -, hh'⟩ := consistent_mutate hc m
    obtain ⟨held, dirty, he, -, -⟩ := mutate_cases _ m hc.bounded
    refine ⟨hc', hcfg'.trans hcfg, hs'.trans hs, hh'.trans hh, ?_⟩
    rw [List.foldl_cons, List.foldl_nil, he]
    exact hi

/-- A started reporter has told its startup image. -/
theorem runInv_started (config : ReporterConfig) (batch : Nat) (mutations : List Mutation) :
    RunInv config batch [((started config mutations).sequence,
      (started config mutations).observed)] [] (started config mutations) := by
  obtain ⟨hc, hcfg, hs, hh, hi⟩ := consistent_mutations batch config mutations
  refine ⟨hcfg, ⟨hc.bounded, fun _ ↦ .refl _, rfl, rfl, ?_⟩, ⟨by simp, ?_, ?_, ?_⟩, ?_, ?_, ?_⟩
  · change (mutations.foldl mutate (create config)).checkpointIndex < _
    rw [hi]
    exact pageCount_pos _ _
  · intro n m hm
    rw [List.mem_singleton, Prod.mk.injEq] at hm
    exact hm.1.le
  · intro n a b ha hb
    rw [List.mem_singleton, Prod.mk.injEq] at ha hb
    rw [ha.2, hb.2]
  · intro d hd
    change d ∈ (mutations.foldl mutate (create config)).history at hd
    rw [hh] at hd
    cases hd
  · intro e he
    cases he
  · intro e he
    cases he
  · exact List.Pairwise.nil

section Worker

variable (config : ReporterConfig) (batchSize : PyInt) (mutations : List Mutation)
  (ops : List Op)

/-- The images a worker process observed, with their sequence numbers. -/
def workerImages : List (Nat × Image) :=
  emittedImages batchSize (started config mutations) ops

/-- The reports a worker process produced. -/
def workerEmissions : List Emission := emissions batchSize (started config mutations) ops

/-- Every run of a worker keeps the invariant. -/
theorem runInv_runOps : RunInv config (batchOf batchSize)
    (workerImages config batchSize mutations ops)
    (workerEmissions config batchSize mutations ops)
    (runOps batchSize (started config mutations) ops) :=
  RunInv.run [] (runInv_started config (batchOf batchSize) mutations) ops

/-- Some reporter state stands behind the reports of a worker. -/
theorem runInv_worker : ∃ r', RunInv config (batchOf batchSize)
    (workerImages config batchSize mutations ops)
    (workerEmissions config batchSize mutations ops) r' :=
  ⟨_, runInv_runOps config batchSize mutations ops⟩

/-- A sequence number determines the observed image. -/
theorem workerImages_unique {n : Nat} {a b : Image}
    (ha : (n, a) ∈ workerImages config batchSize mutations ops)
    (hb : (n, b) ∈ workerImages config batchSize mutations ops) : a = b := by
  obtain ⟨r', h⟩ := runInv_worker config batchSize mutations ops
  exact h.logged.unique n a b ha hb

/-- The startup image is the image of sequence 0. -/
theorem startupImage_mem : ∃ m, (0, m) ∈ workerImages config batchSize mutations ops ∧
    startupImage config mutations = m.sortedItems := by
  obtain ⟨-, -, hs, -, -⟩ := consistent_mutations (batchOf batchSize) config mutations
  refine ⟨(mutations.foldl mutate (create config)).held, ?_, rfl⟩
  have hstart : ((started config mutations).sequence, (started config mutations).observed) =
      (0, (mutations.foldl mutate (create config)).held) := by
    rw [Prod.mk.injEq]
    exact ⟨hs, rfl⟩
  rw [← hstart]
  unfold workerImages
  cases ops with
  | nil => exact List.mem_cons_self
  | cons op ops => exact List.mem_cons_self

end Worker

end SpoolCache.Quorum.InventoryReporter

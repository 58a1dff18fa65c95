import SpoolCache.Quorum.Rollback
import SpoolCache.Quorum.WellFormed

/-!
# Inventory reports converge

A worker that is not mutated any more tells its queued additions in reports that each restart the
checkpoint (`quorum.py:161–218`), and then repeats whole checkpoint cycles (`quorum.py:220–242`).
A scheduler that has seen any of the worker's earlier messages stores the pages of one such cycle
in a row, which synchronizes the rank; `inventory_converges` counts the reports. Counters beyond
`_MAX_COUNTER` fail validation (`quorum.py:709–724`), so it is about reports below it.
-/

namespace SpoolCache.Quorum

open SpoolCache.Base
open QuorumCatalog (Call PendingOk updatedImage pendingFor storePage flattenedPages admits_pendingOk)
open InventoryReporter (Mutation Op Emission EmissionOk RunState batchOf started runOps
  workerImages workerEmissions)
open RankView (Tracks Admits Carries Receives)

/-! ### A receiver of one process -/

namespace RankView

private theorem sequence_pendingFor (pending : Option PendingCheckpoint)
    (cp : InventoryCheckpoint) :
    (pendingFor pending cp).sequence = cp.sequence ∧ (pendingFor pending cp).cycle = cp.cycle := by
  rcases pendingFor_cases pending cp with hp | ⟨-, hs, hc⟩
  · rw [hp]
    exact ⟨rfl, rfl⟩
  · exact ⟨hs, hc⟩

private theorem sequence_applyDelta_le {v : RankView} {delta : Option InventoryDelta} {n : Nat}
    (hv : v.sequence ≤ n) (hd : ∀ d, delta = some d → d.sequence ≤ n) :
    (v.applyDelta delta).sequence ≤ n := by
  unfold applyDelta
  split
  · exact hv
  · next d =>
    split
    · exact hv
    · split
      · exact hd d rfl
      · split <;> exact hv

private theorem sequence_storeCheckpoint_le {v : RankView} {cp : InventoryCheckpoint}
    {p : PendingCheckpoint} {n : Nat} (hv : v.sequence ≤ n) (hp : p.sequence ≤ n) :
    (v.storeCheckpoint cp p).sequence ≤ n := by
  unfold storeCheckpoint
  split
  · exact hv
  · dsimp only
    split
    · exact hv
    · split
      · unfold completeCheckpoint
        dsimp only
        split
        · exact hv
        · split
          · exact hv
          · exact hp
      · exact hv

/-- A valid report records no sequence beyond its own. -/
theorem sequence_applyValid_le {v : RankView} {report : WorkerInventoryReport} {n : Nat}
    (hv : v.sequence ≤ n) (hcp : report.checkpoint.sequence ≤ n)
    (hd : ∀ d, report.delta = some d → d.sequence ≤ n) : (v.applyValid report).sequence ≤ n := by
  apply sequence_storeCheckpoint_le
  · rw [sequence_checkSequence]
    exact sequence_applyDelta_le hv hd
  · rw [(sequence_pendingFor _ _).1]
    exact hcp

private theorem conflict_applyDelta (v : RankView) (delta : Option InventoryDelta) :
    (v.applyDelta delta).conflict = v.conflict := by
  unfold applyDelta
  split
  · rfl
  · split
    · rfl
    · split
      · rfl
      · split <;> rfl

private theorem conflict_storeCheckpoint (v : RankView) (cp : InventoryCheckpoint)
    (p : PendingCheckpoint) : (v.storeCheckpoint cp p).conflict = v.conflict := by
  unfold storeCheckpoint
  split
  · rfl
  · dsimp only
    split
    · rfl
    · split
      · unfold completeCheckpoint
        dsimp only
        split
        · rfl
        · split <;> rfl
      · rfl

private theorem conflict_applyValid (v : RankView) (report : WorkerInventoryReport) :
    (v.applyValid report).conflict = v.conflict := by
  have hcheck : ((v.applyDelta report.delta).checkSequence report.checkpoint).conflict =
      (v.applyDelta report.delta).conflict := by
    unfold checkSequence
    split <;> rfl
  exact (conflict_storeCheckpoint _ _ _).trans (hcheck.trans (conflict_applyDelta v _))

/-- The receiver has heard of one process only, and of no state of it beyond `n`. -/
structure Behind (i : Identity) (n : Nat) (v : RankView) : Prop where
  identity : v.identity = none ∨ v.identity = some i
  conflict : v.conflict = false
  sequence_le : v.sequence ≤ n

namespace Behind

variable {i : Identity} {n : Nat} {v : RankView}

/-- A view that is behind is behind a later sequence too. -/
theorem mono (h : Behind i n v) {n' : Nat} (hn : n ≤ n') : Behind i n' v :=
  ⟨h.identity, h.conflict, h.sequence_le.trans hn⟩

/-- A message of the process is its first one or of the adopted process. -/
theorem disposition (h : Behind i n v) :
    v.identity = none ∧ v.disposition i = .initial ∨
      v.identity = some i ∧ v.disposition i = .current := by
  rcases h.identity with hi | hi
  · refine .inl ⟨hi, ?_⟩
    unfold RankView.disposition
    rw [hi]
  · refine .inr ⟨hi, ?_⟩
    unfold RankView.disposition
    rw [hi, h.conflict]
    simp

private theorem adopt (v : RankView) (i : Identity) (n : Nat) : Behind i n (v.adopt i) :=
  ⟨.inr rfl, rfl, Nat.zero_le n⟩

private theorem applyBody (h : Behind i n v) {bounds : InventoryBounds} {raw : RawReport}
    (hr : ∀ report, validateInventoryReport bounds raw = .ok report →
      report.checkpoint.sequence ≤ n ∧ ∀ d, report.delta = some d → d.sequence ≤ n) :
    Behind i n (v.applyBody bounds raw) := by
  refine ⟨by rw [identity_applyBody]; exact h.identity, ?_, ?_⟩
  · unfold RankView.applyBody
    split
    · exact h.conflict
    · exact (conflict_applyValid v _).trans h.conflict
  · unfold RankView.applyBody
    split
    · exact h.sequence_le
    · next report hv =>
      obtain ⟨hcp, hd⟩ := hr report hv
      exact sequence_applyValid_le h.sequence_le hcp hd

private theorem installStartup (h : Behind i n v) (bounds : InventoryBounds)
    (entries : EntryStream) :
    Behind i n (v.installStartup bounds entries) := by
  unfold RankView.installStartup
  split
  · exact h
  · exact ⟨h.identity, h.conflict, h.sequence_le⟩

end Behind

end RankView

/-! ### What is known of a reachable receiver -/

section Reachable

variable (config : ReporterConfig) (batchSize : PyInt) (mutations : List Mutation)
  (ops : List Op)

/-- Messages of the process up to sequence `n` keep a receiver behind it. -/
theorem behind_receive (bounds : InventoryBounds) {v : RankView} {n : Nat} {m : Call}
    (h : v.Behind config.identity n) (hm : WorkerMessage config batchSize mutations ops m)
    (hle : ∀ e ∈ workerEmissions config batchSize mutations ops,
      e.report.checkpoint.sequence ≤ n) :
    (v.receive bounds m).Behind config.identity n := by
  rcases hm with rfl | ⟨e, he, rfl⟩
  · change (v.receiveStartup bounds _ _ _).Behind config.identity n
    simp only [RankView.receiveStartup, validateGenerationIdentity_config]
    rcases h.disposition with ⟨-, hd⟩ | ⟨-, hd⟩
    · simp only [hd]
      exact (RankView.Behind.adopt v _ n).installStartup _ _
    · simp only [hd]
      exact h
  · have hi := validateGenerationIdentity_report config batchSize mutations ops he
    have hok := emissionOk_worker config batchSize mutations ops he
    have hr : ∀ report, validateInventoryReport bounds e.report.toRaw = .ok report →
        report.checkpoint.sequence ≤ n ∧ ∀ d, report.delta = some d → d.sequence ≤ n := by
      intro report hv
      obtain ⟨hcp, hdelta⟩ := validateInventoryReport_toRaw hv
      rw [hcp, hdelta]
      exact ⟨hle e he, fun d hd ↦ (hok.delta d hd).le.trans (hle e he)⟩
    change (v.receiveReport bounds _).Behind config.identity n
    simp only [RankView.receiveReport, hi]
    rcases h.disposition with ⟨-, hd⟩ | ⟨-, hd⟩
    · simp only [hd]
      exact (RankView.Behind.adopt v _ n).applyBody hr
    · simp only [hd]
      exact h.applyBody hr

/-- The checkpoint counts the entries of the image of its sequence. -/
def ObservedCount (i : Identity) (p : PendingCheckpoint) : Prop :=
  i = config.identity →
    ∃ img, (p.sequence, img) ∈ workerImages config batchSize mutations ops ∧
      p.heldCount = img.size

private theorem admits_observedCount (bounds : InventoryBounds) {m : Call}
    (hm : WorkerMessage config batchSize mutations ops m) :
    Admits (fun _ _ _ ↦ True) (ObservedCount config batchSize mutations ops) bounds m := by
  refine ⟨fun _ _ _ _ _ _ _ _ _ ↦ trivial, ?_⟩
  intro raw i report hraw _ hv
  obtain ⟨e, -, hok, hcp, -⟩ := emission_of_message config batchSize mutations ops hraw hm hv
  refine ⟨fun _ _ _ _ _ ↦ trivial, ?_⟩
  intro p _ hmatch _ _ _
  rw [hcp] at hmatch
  refine ⟨e.observed, ?_, ?_⟩
  · change (p.sequence, e.observed) ∈ _
    rw [hmatch.sequence]
    exact hok.mem
  · change p.heldCount = _
    rw [hmatch.heldCount, hok.heldCount]

end Reachable

/-- Pages of a logged image, counted as the receiver counts them. -/
def PagesOf (log : List (Nat × Image)) (batch : Nat) (p : PendingCheckpoint) : Prop :=
  p.entryCount = p.pages.total List.length ∧
    ∃ img, (p.sequence, img) ∈ log ∧ p.count = pageCount batch img.size ∧
      p.heldCount = img.size ∧
      ∀ index l, p.pages.get? index = some l →
        index < p.count ∧ l = page batch index img.sortedItems

/-- The receiver has heard of one process only, nothing beyond `n`, and what is pending are pages
of its images. -/
structure Ready (i : Identity) (log : List (Nat × Image)) (batch n : Nat) (v : RankView) :
    Prop where
  behind : v.Behind i n
  shown : v.synchronized = true → v.identity = some i
  pending : ∀ p, v.pending = some p → v.identity = some i ∧ PagesOf log batch p

private theorem Ready.of_receives {i : Identity} {log : List (Nat × Image)} {batch n : Nat}
    {e : Prop} {v v' : RankView} (h : Ready i log batch n v) (hr : Receives e v' v) :
    Ready i log batch n v' := by
  rw [hr.rest]
  exact ⟨⟨h.behind.identity, h.behind.conflict, h.behind.sequence_le⟩, h.shown, h.pending⟩

section Ready

variable {config : ReporterConfig} {batchSize : PyInt} {mutations : List Mutation}
  {ops : List Op} {ranks : List PyInt} {bounds : InventoryBounds} {c : QuorumCatalog}

private theorem behind_receiveAll {expectedRanks : Finset Nat} {v : RankView} {calls : List Call}
    (hcalls : ∀ m ∈ calls, m.rank? expectedRanks = some config.rank →
      WorkerMessage config batchSize mutations ops m)
    (h : v.Behind config.identity (runOps batchSize (started config mutations) ops).sequence) :
    (RankView.receiveAll bounds expectedRanks config.rank v calls).Behind config.identity
      (runOps batchSize (started config mutations) ops).sequence := by
  have hle := (InventoryReporter.runInv_runOps config batchSize mutations ops).le
  induction calls generalizing v with
  | nil => exact h
  | cons m calls ih =>
    have htail := fun x hx ↦ hcalls x (List.mem_cons_of_mem m hx)
    by_cases hr : m.rank? expectedRanks = some config.rank
    · have hstep := behind_receive config batchSize mutations ops bounds h
        (hcalls m List.mem_cons_self hr) hle
      simpa [RankView.receiveAll, hr] using ih htail hstep
    · simpa [RankView.receiveAll, hr] using ih htail h

/-- Whatever messages of the process arrive, in any order, the receiver is ready. -/
theorem ready_run (hc : QuorumCatalog.create ranks bounds = .ok c)
    (hr : config.rank ∈ c.expectedRanks) {calls : List Call}
    (hcalls : ∀ m ∈ calls, m.rank? c.expectedRanks = some config.rank →
      WorkerMessage config batchSize mutations ops m) :
    Ready config.identity (workerImages config batchSize mutations ops) (batchOf batchSize)
      (runOps batchSize (started config mutations) ops).sequence
      ((c.run calls).view config.rank) := by
  apply Ready.of_receives _ (QuorumCatalog.view_run c calls config.rank)
  obtain ⟨hobs, hid⟩ := tracks_worker hc hr hcalls
  obtain ⟨n, -, rfl⟩ := QuorumCatalog.expectedRanks_of_create hc
  have hfresh := fun image page ↦
    @QuorumCatalog.tracks_fresh image page bounds (Finset.range n) config.rank hr
  have hcount := (hfresh _ _).receiveAll (fun _ _ _ _ ↦ trivial) fun m hm hmr ↦
    admits_observedCount config batchSize mutations ops bounds (hcalls m hm hmr)
  have hpending := (hfresh _ _).receiveAll (fun _ _ _ _ ↦ trivial)
    fun m (_ : m ∈ calls) (_ : m.rank? (Finset.range n) = some config.rank) ↦
      admits_pendingOk bounds m
  have hbehind := @behind_receiveAll config batchSize mutations ops bounds _
    ((QuorumCatalog.fresh bounds (Finset.range n)).view config.rank) calls hcalls
    ⟨.inl rfl, rfl, Nat.zero_le _⟩
  refine ⟨hbehind, ?_, ?_⟩
  · intro hs
    obtain ⟨i, hi, rfl⟩ := hid.shown hs
    exact hi
  · intro p hp
    obtain ⟨i, hi, rfl⟩ := hid.stored p hp
    obtain ⟨j, hj, hpages⟩ := hobs.stored p hp
    obtain ⟨k, hk, hheld⟩ := hcount.stored p hp
    obtain ⟨-, -, htotal, -⟩ := hpending.stored p hp
    have hji : j = config.identity := Option.some.inj (hj.symm.trans hi)
    have hki : k = config.identity := Option.some.inj (hk.symm.trans hi)
    obtain ⟨-, img, himg, hcount, hall⟩ := hpages hji
    obtain ⟨img', himg', hsize⟩ := hheld hki
    rw [InventoryReporter.workerImages_unique config batchSize mutations ops himg' himg] at hsize
    exact ⟨hi, htotal, img, himg, hcount, hsize, hall⟩

end Ready

/-! ### One page of the last image -/

/-- The rank is synchronized at sequence `n` and shows the image. -/
structure Shows (n : Nat) (img : Image) (v : RankView) : Prop where
  synchronized : v.synchronized = true
  sequence : v.sequence = n
  image : OrderedDict.Same v.image img

/-- The first `k` pages of a checkpoint cycle are pending. -/
def Filled (n cycle k : Nat) (v : RankView) : Prop :=
  k = 0 ∨ ∃ p, v.pending = some p ∧ p.sequence = n ∧ p.cycle = cycle ∧ ∀ i < k, i ∈ p.pages.keys

private theorem total_pages_le {pages : OrderedDict Nat (List Entry)} {batch : Nat} {l : List Entry}
    (hb : 0 < batch)
    (h : ∀ i es, pages.get? i = some es → i < pageCount batch l.length ∧ es = page batch i l) :
    pages.total List.length ≤ l.length := by
  have hitems : pages.total List.length =
      (pages.keys.map fun i ↦ (page batch i l).length).sum := by
    unfold OrderedDict.total OrderedDict.keys
    rw [List.map_map]
    congr 1
    apply List.map_congr_left
    intro x hx
    have hes := (h x.1 x.2 ((pages.get?_eq_some_iff x.1 x.2).mpr hx)).2
    exact congrArg List.length hes
  have hsub : pages.keys.Subperm (List.range (pageCount batch l.length)) := by
    apply pages.nodup_keys.subperm
    intro i hi
    obtain ⟨es, hes⟩ := (pages.mem_keys_iff i).mp hi
    exact List.mem_range.mpr (h i es hes).1
  obtain ⟨ks, hperm, hsublist⟩ := hsub
  have hall : ((List.range (pageCount batch l.length)).map fun i ↦ (page batch i l).length).sum =
      l.length := by
    rw [← List.length_flatMap, flatMap_page batch hb l]
  rw [hitems, ← (hperm.map _).sum_eq, ← hall]
  exact (hsublist.map _).sum_le_sum fun _ _ ↦ Nat.zero_le _

private theorem size_of_keys {pages : OrderedDict Nat (List Entry)} {count : Nat}
    (h : ∀ j, j ∈ pages.keys ↔ j < count) : pages.size = count := by
  have hperm : pages.keys.Perm (List.range count) := by
    rw [List.perm_ext_iff_of_nodup pages.nodup_keys List.nodup_range]
    intro j
    rw [h, List.mem_range]
  rw [← pages.length_keys, hperm.length_eq, List.length_range]

/-- A pending checkpoint of the image whose page a report carries. -/
structure PagesFor (batch : Nat) (img : Image) (cp : InventoryCheckpoint)
    (p : PendingCheckpoint) : Prop where
  sequence : p.sequence = cp.sequence
  cycle : p.cycle = cp.cycle
  count : p.count = pageCount batch img.size
  heldCount : p.heldCount = img.size
  entryCount : p.entryCount = p.pages.total List.length
  pages : ∀ index l, p.pages.get? index = some l →
    index < p.count ∧ l = page batch index img.sortedItems

section Page

variable {config : ReporterConfig} {i : Identity} {log log' : List (Nat × Image)}
  {batch n : Nat} {v : RankView} {e : Emission}

private theorem pagesFor_pendingFor (h : Ready i log batch n v)
    (hok : EmissionOk config batch log' e)
    (hlog : log ⊆ log') (hunique : ∀ n a b, (n, a) ∈ log' → (n, b) ∈ log' → a = b) :
    PagesFor batch e.observed e.report.checkpoint
      (pendingFor v.pending e.report.checkpoint) := by
  rcases RankView.pendingFor_cases v.pending e.report.checkpoint with hp | ⟨hp, hs, hc⟩
  · rw [hp]
    exact ⟨rfl, rfl, hok.count, hok.heldCount, rfl, fun _ _ h ↦ (by cases h)⟩
  · obtain ⟨-, htotal, img, himg, hcount, hheld, hpages⟩ := h.pending _ hp
    have he : img = e.observed := by
      apply hunique e.report.checkpoint.sequence
      · rw [← hs]
        exact hlog himg
      · exact hok.mem
    subst he
    exact ⟨hs, hc, hcount, hheld, htotal, hpages⟩

private theorem PagesFor.storePage {p : PendingCheckpoint}
    (h : PagesFor batch e.observed e.report.checkpoint p) (hok : EmissionOk config batch log' e) :
    PagesFor batch e.observed e.report.checkpoint (storePage p e.report.checkpoint) := by
  refine ⟨h.sequence, h.cycle, h.count, h.heldCount,
    QuorumCatalog.entryCount_storePage _ h.entryCount, ?_⟩
  intro index l hl
  change (p.pages.set _ _).get? index = some l at hl
  change index < p.count ∧ _
  rw [OrderedDict.get?_set] at hl
  by_cases hx : index = e.report.checkpoint.index
  · rw [if_pos hx, Option.some.injEq] at hl
    rw [hx, ← hl, h.count, ← hok.count]
    exact ⟨hok.index_lt, hok.entries⟩
  · rw [if_neg hx] at hl
    exact h.pages index l hl

/-- A complete checkpoint of an image that nothing newer supersedes is installed. -/
theorem PagesFor.shows_complete {p : PendingCheckpoint} {img : Image} {cp : InventoryCheckpoint}
    (h : PagesFor batch img cp p) (hb : 0 < batch) (hfull : p.pages.size = p.count)
    (hv : v.sequence ≤ cp.sequence) : Shows cp.sequence img (v.completeCheckpoint p) := by
  have hflat : flattenedPages p = img.sortedItems := flattenedPages_eq hb hfull h.count h.pages
  have hsize : (OrderedDict.ofItems img.sortedItems).size = img.sortedItems.length := by
    rw [img.same_ofItems_sortedItems.size_eq, img.length_sortedItems]
  unfold RankView.completeCheckpoint
  dsimp only
  rw [if_neg (by rw [h.sequence]; omega), hflat, if_neg]
  · exact ⟨rfl, h.sequence, img.same_ofItems_sortedItems⟩
  · rw [not_or, not_not, not_not]
    exact ⟨by rw [img.length_sortedItems, h.heldCount], hsize⟩

/-- A rank that shows the image of sequence `n` takes no delta and no warning up to `n`. -/
theorem Shows.applyDelta {img : Image} (h : Shows n img v) {delta : Option InventoryDelta}
    (hd : ∀ d, delta = some d → d.sequence ≤ n) : v.applyDelta delta = v := by
  have hseq := h.sequence
  unfold RankView.applyDelta
  split
  · rfl
  · next d =>
    have hle := hd d rfl
    rw [if_neg (by rw [h.synchronized]; decide), if_neg (by omega), if_neg (by omega)]

private theorem Shows.checkSequence {img : Image} (h : Shows n img v) {cp : InventoryCheckpoint}
    (hcp : cp.sequence ≤ n) : v.checkSequence cp = v := by
  have hseq := h.sequence
  unfold RankView.checkSequence
  rw [if_neg (by omega)]

private theorem pending_applyDelta (v : RankView) (delta : Option InventoryDelta) :
    (v.applyDelta delta).pending = v.pending := by
  unfold RankView.applyDelta
  split
  · rfl
  · split
    · rfl
    · split
      · rfl
      · split <;> rfl

/-- A report of an image stores its page and, with the last one, installs the image. -/
theorem applyValid_stores (h : Ready i log batch n v) (hok : EmissionOk config batch log' e)
    (hlog : log ⊆ log') (hunique : ∀ n a b, (n, a) ∈ log' → (n, b) ∈ log' → a = b)
    (hn : n ≤ e.report.checkpoint.sequence) :
    Shows e.report.checkpoint.sequence e.observed (v.applyValid e.report) ∨
      (Shows e.report.checkpoint.sequence e.observed v →
        Shows e.report.checkpoint.sequence e.observed (v.applyValid e.report)) ∧
      (v.applyValid e.report).pending =
        some (storePage (pendingFor v.pending e.report.checkpoint) e.report.checkpoint) ∧
      (storePage (pendingFor v.pending e.report.checkpoint) e.report.checkpoint).pages.size ≠
        pageCount batch e.observed.size := by
  have hfor := pagesFor_pendingFor h hok hlog hunique
  have hstored := hfor.storePage hok
  have hle : ∀ d, e.report.delta = some d → d.sequence ≤ e.report.checkpoint.sequence :=
    fun d hd ↦ (hok.delta d hd).le
  have hpending : ((v.applyDelta e.report.delta).checkSequence e.report.checkpoint).pending =
      v.pending := (RankView.pending_checkSequence _ _).trans (pending_applyDelta v _)
  have hseq : ((v.applyDelta e.report.delta).checkSequence e.report.checkpoint).sequence ≤
      e.report.checkpoint.sequence := by
    rw [RankView.sequence_checkSequence]
    exact RankView.sequence_applyDelta_le (h.behind.sequence_le.trans hn) hle
  have hkeep : Shows e.report.checkpoint.sequence e.observed v →
      (v.applyDelta e.report.delta).checkSequence e.report.checkpoint = v := by
    intro hv
    rw [hv.applyDelta hle, hv.checkSequence le_rfl]
  unfold RankView.applyValid RankView.applyCheckpoint
  dsimp only
  rw [hpending]
  generalize (v.applyDelta e.report.delta).checkSequence e.report.checkpoint = w at hseq hkeep ⊢
  unfold RankView.storeCheckpoint
  have hpos : 0 < e.report.checkpoint.count := Nat.zero_lt_of_lt hok.index_lt
  have hcount := hfor.count.trans hok.count.symm
  have hheld := hfor.heldCount.trans hok.heldCount.symm
  have hindex := hok.index_lt
  rw [if_neg (by omega)]
  dsimp only
  have hfits : (storePage (pendingFor v.pending e.report.checkpoint)
      e.report.checkpoint).entryCount ≤ (pendingFor v.pending e.report.checkpoint).heldCount := by
    rw [hstored.entryCount, hfor.heldCount, ← e.observed.length_sortedItems]
    apply total_pages_le hok.batch_pos
    intro index es hes
    have hpage := hstored.pages index es hes
    rw [hstored.count, ← e.observed.length_sortedItems] at hpage
    exact hpage
  rw [if_neg (Nat.not_lt.mpr hfits)]
  split
  · next hfull => exact .inl (hstored.shows_complete hok.batch_pos hfull hseq)
  · next hfull =>
    refine .inr ⟨fun hv ↦ ?_, rfl, ?_⟩
    · rw [hkeep hv]
      exact ⟨hv.synchronized, hv.sequence, hv.image⟩
    · rw [← hstored.count]
      exact hfull

private theorem Shows.applyValid (h : Ready i log batch n v) (hok : EmissionOk config batch log' e)
    (hlog : log ⊆ log') (hunique : ∀ n a b, (n, a) ∈ log' → (n, b) ∈ log' → a = b)
    (hn : n ≤ e.report.checkpoint.sequence)
    (hv : Shows e.report.checkpoint.sequence e.observed v) :
    Shows e.report.checkpoint.sequence e.observed (v.applyValid e.report) := by
  rcases applyValid_stores h hok hlog hunique hn with hshows | ⟨hkeep, -⟩
  · exact hshows
  · exact hkeep hv

/-- The next page of a cycle is added to the pages before it; the last one shows the image. -/
theorem Filled.applyValid (h : Ready i log batch n v) (hok : EmissionOk config batch log' e)
    (hlog : log ⊆ log') (hunique : ∀ n a b, (n, a) ∈ log' → (n, b) ∈ log' → a = b)
    (hn : n ≤ e.report.checkpoint.sequence)
    (hv : Filled e.report.checkpoint.sequence e.report.checkpoint.cycle
      e.report.checkpoint.index v) :
    Shows e.report.checkpoint.sequence e.observed (v.applyValid e.report) ∨
      e.report.checkpoint.index + 1 < pageCount batch e.observed.size ∧
      Filled e.report.checkpoint.sequence e.report.checkpoint.cycle
        (e.report.checkpoint.index + 1) (v.applyValid e.report) := by
  have hstored := (pagesFor_pendingFor h hok hlog hunique).storePage hok
  rcases applyValid_stores h hok hlog hunique hn with hshows | ⟨-, hpending, hsize⟩
  · exact .inl hshows
  · right
    have hold : ∀ j < e.report.checkpoint.index,
        j ∈ (pendingFor v.pending e.report.checkpoint).pages.keys := by
      intro j hj
      rcases hv with hz | ⟨p, hp, hs, hc, hkeys⟩
      · omega
      · have hpend : pendingFor v.pending e.report.checkpoint = p := by
          unfold pendingFor
          rw [hp]
          dsimp only
          rw [if_neg]
          rw [not_or, not_not, not_not]
          exact ⟨hc, hs⟩
        rw [hpend]
        exact hkeys j hj
    have hkeys : ∀ j < e.report.checkpoint.index + 1,
        j ∈ (storePage (pendingFor v.pending e.report.checkpoint)
          e.report.checkpoint).pages.keys := by
      intro j hj
      change j ∈ ((pendingFor v.pending e.report.checkpoint).pages.set _ _).keys
      rw [OrderedDict.mem_keys_set]
      rcases Nat.lt_succ_iff_lt_or_eq.mp hj with hlt | heq
      · exact .inr (hold j hlt)
      · exact .inl heq
    refine ⟨?_, .inr ⟨_, hpending, hstored.sequence, hstored.cycle, hkeys⟩⟩
    -- with every index below the count there the checkpoint is complete
    by_contra hlt
    apply hsize
    apply size_of_keys
    intro j
    rw [← hstored.count]
    refine ⟨fun hj ↦ ?_, fun hj ↦ hkeys j ?_⟩
    · obtain ⟨l, hl⟩ := (OrderedDict.mem_keys_iff _ j).mp hj
      exact (hstored.pages j l hl).1
    · rw [hstored.count] at hj
      omega

end Page

/-! ### A reporter that is not mutated -/

namespace InventoryReporter

variable {batch : Nat} {r : InventoryReporter}

/-- What was told is held, and the reporter is dirty while some of it was not. -/
structure Told (r : InventoryReporter) : Prop where
  sub : OrderedDict.SubDict r.observed r.held
  dirty : r.dirty = decide (r.held.size ≠ r.observed.size)

private theorem told_observe (h : Consistent batch r) : Told (r.observe batch) := by
  refine ⟨(observe_spec h).2.2, ?_⟩
  rcases observe_cases r batch with ⟨he, -⟩ | he
  · rw [he]
  · rw [he]
    simp only [restartCheckpoint, held_advance]

private theorem size_foldl_set {es : List Entry} {m : Image} (hnodup : (es.map Prod.fst).Nodup)
    (hnew : ∀ e ∈ es, e.1 ∉ m.keys) :
    (es.foldl (fun m e ↦ m.set e.1 e.2) m).size = m.size + es.length := by
  induction es generalizing m with
  | nil => rfl
  | cons e es ih =>
    rw [List.map_cons, List.nodup_cons] at hnodup
    have hsize : (m.set e.1 e.2).size = m.size + 1 := by
      rw [OrderedDict.size_set, if_neg (hnew e List.mem_cons_self)]
    rw [List.foldl_cons, ih hnodup.2, hsize, List.length_cons]
    · omega
    · intro x hx hmem
      rcases (OrderedDict.mem_keys_set _ _ _ _).mp hmem with heq | hold
      · exact hnodup.1 (heq ▸ List.mem_map_of_mem hx)
      · exact hnew x (List.mem_cons_of_mem e hx) hold

private theorem removedKeys_of_sub (h : OrderedDict.SubDict r.observed r.held) : r.removedKeys =
    [] := by
  rw [List.eq_nil_iff_forall_not_mem]
  intro k hk
  unfold removedKeys at hk
  rw [(List.perm_insertionSort _ _).mem_iff] at hk
  obtain ⟨e, he, -⟩ := List.mem_map.mp hk
  obtain ⟨hmem, hne⟩ := List.mem_filter.mp he
  exact of_decide_eq_true hne (h e.1 e.2 ((OrderedDict.get?_eq_some_iff _ _ _).mpr hmem))

/-- Held entries that were not told make up the difference of the sizes. -/
theorem length_untold (r : InventoryReporter) :
    r.held.size ≤ r.observed.size +
      (r.held.items.filter fun e ↦ decide (e.1 ∉ r.observed.keys)).length := by
  have hsplit := List.length_eq_length_filter_add (l := r.held.items)
    fun e ↦ decide (e.1 ∉ r.observed.keys)
  have htold : (r.held.items.filter fun e ↦ !decide (e.1 ∉ r.observed.keys)).length ≤
      r.observed.size := by
    rw [← List.length_map Prod.fst, ← r.observed.length_keys]
    apply List.Subperm.length_le
    apply (r.held.nodup_keys.sublist (List.filter_sublist.map _)).subperm
    intro k hk
    obtain ⟨e, he, rfl⟩ := List.mem_map.mp hk
    simpa using (List.mem_filter.mp he).2
  unfold OrderedDict.size at *
  omega

/-- Each report of a dirty reporter tells a batch of the entries that were not told. -/
theorem size_observe (ht : Told r) (batch : Nat) :
    min r.held.size (r.observed.size + batch) ≤ (r.observe batch).observed.size := by
  by_cases hsize : r.held.size = r.observed.size
  · have hkeep : (r.observe batch).observed = r.observed := by
      have hsame := (ht.sub.same_of_size_eq hsize.symm).symm
      unfold observe
      dsimp only
      rw [if_neg]
      rintro ⟨-, hdiff⟩
      rw [(OrderedDict.sameItems_iff _ _).mpr hsame] at hdiff
      cases hdiff
    rw [hkeep]
    omega
  · have hdirty : r.dirty = true ∧ OrderedDict.sameItems r.held r.observed = false := by
      refine ⟨by rw [ht.dirty]; exact decide_eq_true hsize, ?_⟩
      rw [Bool.eq_false_iff]
      intro hsame
      exact hsize ((OrderedDict.sameItems_iff _ _).mp hsame).size_eq
    have hobserved : (r.observe batch).observed = (r.advance batch).observed := by
      unfold observe
      dsimp only
      rw [if_pos hdirty]
      rfl
    have hremoved := removedKeys_of_sub ht.sub
    have hadvance : (r.advance batch).observed =
        (r.addedEntries batch).foldl (fun m e ↦ m.set e.1 e.2) r.observed := by
      unfold advance
      rw [if_pos (by rw [hremoved]; exact Nat.zero_le _)]
      simp only [updatedImage, deltaOf, hremoved]
      rfl
    have hlength : (r.addedEntries batch).length = min batch
        (r.held.items.filter fun e ↦ decide (e.1 ∉ r.observed.keys)).length := by
      unfold addedEntries
      rw [List.length_take, List.length_insertionSort]
    have huntold := length_untold r
    rw [hobserved, hadvance, size_foldl_set (nodup_addedEntries r batch)
      fun e he ↦ not_mem_observed_of_mem_addedEntries he, hlength]
    omega

/-- A reporter that told everything repeats its cycle. -/
theorem observe_of_clean (h : Consistent batch r) (hd : r.dirty = false) :
    r.observe batch = r := by
  have hsize := (h.clean hd).size_eq
  unfold observe
  dsimp only
  rw [if_neg (by rw [hd]; simp), hsize]
  simp [← hd]

/-- The next `k` reports of a reporter that is not mutated. -/
def nextReports (b : Nat) (r : InventoryReporter) (k : Nat) : List Emission :=
  emissions (some (b : Int)) r (List.replicate k .report)

/-- The reporter after its next `k` reports. -/
def afterReports (b : Nat) (r : InventoryReporter) (k : Nat) : InventoryReporter :=
  runOps (some (b : Int)) r (List.replicate k .report)

/-- The reporter after one report. -/
def reported (b : Nat) (r : InventoryReporter) : InventoryReporter :=
  (r.observe b).advanceCursors b

/-- The report a reporter makes next, with the images at that moment. -/
def emission (b : Nat) (r : InventoryReporter) : Emission where
  report := ⟨(r.observe b).config.rank, (r.observe b).config.generation,
    (r.observe b).config.generationEpoch, (r.observe b).checkpointPage b, (r.observe b).nextDelta⟩
  held := (r.reported b).held
  observed := (r.reported b).observed

/-- A clean reporter only moves its cursors. -/
theorem reported_of_clean (h : Consistent batch r) (hd : r.dirty = false) :
    r.reported batch = r.advanceCursors batch := by
  unfold reported
  rw [observe_of_clean h hd]

private theorem emission_of_clean (h : Consistent batch r) (hd : r.dirty = false) :
    (r.emission batch).report.checkpoint.sequence = r.sequence ∧
      (r.emission batch).report.checkpoint.cycle = r.checkpointCycle ∧
      (r.emission batch).report.checkpoint.index = r.checkpointIndex ∧
      (r.emission batch).observed = r.observed := by
  unfold emission reported
  dsimp only
  rw [observe_of_clean h hd]
  exact ⟨h.checkpointSequence, rfl, rfl, rfl⟩

private theorem nextReport_eq {b : Nat} (hb : 0 < b) (hle : b ≤ r.config.bounds.maxReportEntries) :
    r.nextReport (some (b : Int)) = .ok ((r.emission b).report, r.reported b) := by
  unfold nextReport
  dsimp only
  rw [if_neg (by omega)]
  rfl

private theorem step_report {b : Nat} (hb : 0 < b) (hle : b ≤ r.config.bounds.maxReportEntries) :
    r.step (some (b : Int)) .report = (r.reported b, some (r.emission b)) := by
  simp only [step]
  rw [nextReport_eq hb hle]
  rfl

private theorem runOps_append (batchSize : PyInt) (r : InventoryReporter) (ops more : List Op) :
    runOps batchSize r (ops ++ more) = runOps batchSize (runOps batchSize r ops) more :=
  List.foldl_append

private theorem runState_after {config : ReporterConfig} {b : Nat} (h : RunState config b r)
    (k : Nat) :
    RunState config b (afterReports b r k) :=
  @RunState.run config (some (b : Int)) r h (List.replicate k .report)

section Reports

variable {config : ReporterConfig} {b : Nat} (hb : 0 < b) (hle : b ≤ config.bounds.maxReportEntries)

include hb hle

private theorem next_succ (h : RunState config b r) (k : Nat) :
    afterReports b r (k + 1) = (afterReports b r k).reported b ∧
      nextReports b r (k + 1) = nextReports b r k ++ [(afterReports b r k).emission b] := by
  have hstate := runState_after h k
  have hstep := step_report hb (hstate.config_eq ▸ hle)
  refine ⟨?_, ?_⟩
  · unfold afterReports
    rw [List.replicate_succ', runOps_append]
    exact congrArg Prod.fst hstep
  · unfold nextReports
    rw [List.replicate_succ', emissions_append]
    congr 1
    change ((afterReports b r k).step _ _).2.toList ++ [] = _
    rw [hstep]
    rfl

private theorem held_after (h : RunState config b r) (k : Nat) : (afterReports b r k).held =
      r.held := by
  induction k with
  | zero => rfl
  | succ k ih =>
    rw [(next_succ hb hle h k).1]
    exact (held_observe _ b).trans ih

private theorem told_after (h : RunState config b r) (k : Nat) :
    Told (afterReports b r (k + 1)) := by
  rw [(next_succ hb hle h k).1]
  obtain ⟨hsub, hdirty⟩ := told_observe (runState_after h k).consistent
  exact ⟨hsub, hdirty⟩

/-- After the first report, each further one tells a batch. -/
theorem size_after (h : RunState config b r) (k : Nat) :
    min r.held.size (k * b) ≤ (afterReports b r (k + 1)).observed.size := by
  induction k with
  | zero =>
    rw [Nat.zero_mul, Nat.min_zero]
    exact Nat.zero_le _
  | succ k ih =>
    have hstep := size_observe (told_after hb hle h k) b
    rw [held_after hb hle h] at hstep
    rw [(next_succ hb hle h (k + 1)).1, Nat.succ_mul]
    change _ ≤ ((afterReports b r (k + 1)).observe b).observed.size
    omega

/-- When every held entry had its report, the reporter has told everything. -/
theorem clean_after (h : RunState config b r) :
    (afterReports b r (pageCount b r.held.size + 1)).dirty = false := by
  have htold := told_after hb hle h (pageCount b r.held.size)
  have hsize := size_after hb hle h (pageCount b r.held.size)
  have hpages := length_le_pageCount_mul b r.held.size hb
  have hsub := htold.sub.size_le
  rw [htold.dirty]
  rw [held_after hb hle h] at hsub ⊢
  exact decide_eq_false (by omega)

end Reports

private theorem nextReports_add (b : Nat) (r : InventoryReporter) (k j : Nat) :
    nextReports b r (k + j) = nextReports b r k ++ nextReports b (afterReports b r k) j := by
  unfold nextReports
  rw [List.replicate_add, emissions_append]
  rfl

private theorem exists_of_mem_nextReports {config : ReporterConfig} {b : Nat} (hb : 0 < b)
    (hle : b ≤ config.bounds.maxReportEntries) (h : RunState config b r) {K : Nat} {e : Emission}
    (he : e ∈ nextReports b r K) : ∃ k, e = (afterReports b r k).emission b := by
  induction K with
  | zero => cases he
  | succ K ih =>
    rw [(next_succ hb hle h K).2] at he
    rcases List.mem_append.mp he with he | he
    · exact ih he
    · exact ⟨K, List.mem_singleton.mp he⟩

private theorem emittedImages_subset (batchSize : PyInt) (r : InventoryReporter)
    (ops more : List Op) :
    emittedImages batchSize r ops ⊆ emittedImages batchSize r (ops ++ more) := by
  induction ops generalizing r with
  | nil =>
    intro x hx
    cases more with
    | nil => exact hx
    | cons op more =>
      rw [List.mem_singleton.mp hx]
      exact List.mem_cons_self
  | cons op ops ih => exact List.cons_subset_cons _ (ih _)

end InventoryReporter

/-! ### Delivery in order -/

/-- A valid report reaches a receiver that has adopted the process. -/
theorem Ready.receive_report {i : Identity} {log : List (Nat × Image)} {batch n : Nat}
    {v : RankView} {bounds : InventoryBounds} {e : Emission} (h : Ready i log batch n v)
    (hi : validateGenerationIdentity e.report.toRaw.generation e.report.toRaw.generationEpoch =
      .ok i) (hv : validateInventoryReport bounds e.report.toRaw = .ok e.report) :
    ∃ w, Ready i log batch n w ∧ v.receive bounds (reportCall e) = w.applyValid e.report ∧
      (v.identity = some i → w = v) := by
  have hreceive : v.receive bounds (reportCall e) =
      v.receiveReport bounds e.report.toRaw := rfl
  rw [hreceive]
  simp only [RankView.receiveReport, hi, RankView.applyBody, hv]
  rcases h.behind.disposition with ⟨hnone, hd⟩ | ⟨hsome, hd⟩
  · refine ⟨v.adopt i, ⟨.adopt v i n, fun _ ↦ rfl, fun _ hp ↦ (by cases hp)⟩, by simp only [hd], ?_⟩
    rw [hnone]
    exact fun hs ↦ (by cases hs)
  · exact ⟨v, h, by simp only [hd], fun _ ↦ rfl⟩

open InventoryReporter (nextReports afterReports emission)

/-- The scheduler's view of the rank after the next `k` reports of the worker. -/
def viewAfter (config : ReporterConfig) (b : Nat) (r : InventoryReporter) (c : QuorumCatalog)
    (calls : List Call) (k : Nat) : RankView :=
  (c.run (calls ++ (nextReports b r k).map reportCall)).view config.rank

/-- The distinct entries of all ranks fit the bound whenever the calls install an image. -/
def FitsBound (c : QuorumCatalog) (calls : List Call) : Prop :=
  (c.run calls).boundEvictions = c.boundEvictions

/-- An installation evicts nothing exactly when the distinct entries fit the bound. -/
theorem evictions_enforceBound_iff {c : QuorumCatalog} (h : c.IndexInv) :
    c.enforceBound.boundEvictions = c.boundEvictions ↔
      c.entryRanks.size ≤ c.bounds.inventoryCapacity := by
  rw [← InventoryBounds.not_overBound_iff]
  unfold QuorumCatalog.enforceBound
  cases hk : c.recency.keys with
  | nil =>
    have hempty : c.entryRanks.size = 0 := by
      rw [← OrderedDict.length_keys, List.length_eq_zero_iff, List.eq_nil_iff_forall_not_mem]
      intro entryId he
      have hm := (h.recency entryId).mpr he
      rw [hk] at hm
      cases hm
    rw [hempty, InventoryBounds.not_overBound_iff]
    exact ⟨fun _ ↦ Nat.zero_le _, fun _ ↦ rfl⟩
  | cons entryId rest =>
    unfold QuorumCatalog.enforceBoundFrom
    split
    · next hover =>
      have hle := (QuorumCatalog.movesTo_enforceBoundFrom rest (c.dropOldest entryId)
        0).evictions_le
      have hdrop : (c.dropOldest entryId).boundEvictions = c.boundEvictions + 1 := rfl
      rw [hover]
      exact ⟨fun he ↦ (by omega), fun hf ↦ (by cases hf)⟩
    · next hfits => exact ⟨fun _ ↦ by simpa using hfits, fun _ ↦ rfl⟩

/-- `K` reports of a worker that is not mutated any more reach, in order and without an eviction,
a scheduler that has seen any of its earlier messages. -/
structure Delivers (config : ReporterConfig) (b : Nat) (mutations : List Mutation) (ops : List Op)
    (r : InventoryReporter) (c : QuorumCatalog) (calls : List Call) (K : Nat) : Prop where
  batch_pos : 0 < b
  batch_le : b ≤ config.bounds.maxReportEntries
  reached : r = runOps (some (b : Int)) (started config mutations) ops
  created : ∃ ranks, QuorumCatalog.create ranks config.bounds = .ok c
  rank_mem : config.rank ∈ c.expectedRanks
  messages : ∀ m ∈ calls, m.rank? c.expectedRanks = some config.rank →
    WorkerMessage config (some (b : Int)) mutations ops m
  counters : ∀ e ∈ nextReports b r K,
    e.report.checkpoint.sequence ≤ maxCounter ∧ e.report.checkpoint.cycle ≤ maxCounter
  fits : FitsBound (c.run calls) ((nextReports b r K).map reportCall)

namespace Delivers

variable {config : ReporterConfig} {b : Nat} {mutations : List Mutation} {ops : List Op}
  {r : InventoryReporter} {c : QuorumCatalog} {calls : List Call} {K k : Nat}

private theorem runState (h : Delivers config b mutations ops r c calls K) :
    RunState config b r := by
  rw [h.reached]
  exact @RunState.run config (some (b : Int)) _ (InventoryReporter.runState_started config b _) ops

private theorem after_eq (h : Delivers config b mutations ops r c calls K) (k : Nat) :
    runOps (some (b : Int)) (started config mutations) (ops ++ List.replicate k .report) =
      afterReports b r k := by
  rw [InventoryReporter.runOps_append, ← h.reached]
  rfl

private theorem emissions_eq (h : Delivers config b mutations ops r c calls K) (k : Nat) :
    workerEmissions config (some (b : Int)) mutations (ops ++ List.replicate k .report) =
      workerEmissions config (some (b : Int)) mutations ops ++ nextReports b r k := by
  unfold workerEmissions
  rw [InventoryReporter.emissions_append, ← h.reached]
  rfl

/-- What has arrived after `k` of the reports are messages of the longer run. -/
theorem messages_after (h : Delivers config b mutations ops r c calls K) (k : Nat) :
    ∀ m ∈ calls ++ (nextReports b r k).map reportCall,
      m.rank? c.expectedRanks = some config.rank →
      WorkerMessage config (some (b : Int)) mutations (ops ++ List.replicate k .report) m := by
  intro m hm hrank
  unfold WorkerMessage
  rw [h.emissions_eq]
  rcases List.mem_append.mp hm with hm | hm
  · rcases h.messages m hm hrank with hs | ⟨e, he, hr⟩
    · exact .inl hs
    · exact .inr ⟨e, List.mem_append_left _ he, hr⟩
  · obtain ⟨e, he, rfl⟩ := List.mem_map.mp hm
    exact .inr ⟨e, List.mem_append_right _ he, rfl⟩

private theorem ready (h : Delivers config b mutations ops r c calls K) (k : Nat) :
    Ready config.identity
      (workerImages config (some (b : Int)) mutations (ops ++ List.replicate k .report)) b
      (afterReports b r k).sequence (viewAfter config b r c calls k) := by
  obtain ⟨ranks, hc⟩ := h.created
  have hready := ready_run hc h.rank_mem (h.messages_after k)
  rw [h.after_eq] at hready
  exact hready

/-- The next report and what it says. -/
theorem emissionOk (h : Delivers config b mutations ops r c calls K) (k : Nat) :
    EmissionOk config b
      (workerImages config (some (b : Int)) mutations (ops ++ List.replicate (k + 1) .report))
      ((afterReports b r k).emission b) := by
  apply emissionOk_worker config (some (b : Int)) mutations
  rw [h.emissions_eq, (InventoryReporter.next_succ h.batch_pos h.batch_le h.runState k).2]
  exact List.mem_append_right _ (List.mem_append_right _ (List.mem_singleton.mpr rfl))

private theorem mem_nextReports (h : Delivers config b mutations ops r c calls K) (hk : k < K) :
    (afterReports b r k).emission b ∈ nextReports b r K := by
  obtain ⟨j, rfl⟩ := Nat.exists_eq_add_of_lt hk
  rw [Nat.add_right_comm, InventoryReporter.nextReports_add,
    (InventoryReporter.next_succ h.batch_pos h.batch_le h.runState k).2]
  simp

/-- No report evicts an entry. -/
theorem evictions_eq (h : Delivers config b mutations ops r c calls K) (hk : k ≤ K) :
    (c.run (calls ++ (nextReports b r k).map reportCall)).boundEvictions =
      (c.run calls).boundEvictions := by
  obtain ⟨j, rfl⟩ := Nat.exists_eq_add_of_le hk
  have hfits : ((c.run calls).run _).boundEvictions = _ := h.fits
  have hfirst := (QuorumCatalog.frame_run (c.run calls) ((nextReports b r k).map reportCall)).2.2
  have hrest := (QuorumCatalog.frame_run
    (c.run (calls ++ (nextReports b r k).map reportCall))
    ((nextReports b (afterReports b r k) j).map reportCall)).2.2
  rw [InventoryReporter.nextReports_add, List.map_append, QuorumCatalog.run_append,
    ← QuorumCatalog.run_append c] at hfits
  rw [← QuorumCatalog.run_append] at hfirst
  omega

private theorem view_succ (h : Delivers config b mutations ops r c calls K) (hk : k < K) :
    viewAfter config b r c calls (k + 1) = (viewAfter config b r c calls k).receive config.bounds
      (reportCall ((afterReports b r k).emission b)) := by
  obtain ⟨ranks, hc⟩ := h.created
  obtain ⟨n, -, rfl⟩ := QuorumCatalog.expectedRanks_of_create hc
  have hlater := h.evictions_eq (k := k + 1) hk
  rw [← h.evictions_eq hk.le] at hlater
  unfold viewAfter
  rw [(InventoryReporter.next_succ h.batch_pos h.batch_le h.runState k).2, List.map_append,
    ← List.append_assoc, QuorumCatalog.run_append] at hlater ⊢
  generalize hcat : (QuorumCatalog.fresh config.bounds (Finset.range n)).run
    (calls ++ (nextReports b r k).map reportCall) = cat at hlater ⊢
  obtain ⟨hbounds, hranks, -⟩ := QuorumCatalog.frame_run
    (QuorumCatalog.fresh config.bounds (Finset.range n))
    (calls ++ (nextReports b r k).map reportCall)
  rw [hcat] at hbounds hranks
  have hview := (QuorumCatalog.view_call cat (reportCall ((afterReports b r k).emission b))
    config.rank).2.2.2.eq hlater
  have hrank := rank?_reportCall (h.emissionOk k) h.rank_mem
  rw [hbounds, hranks] at hview
  rw [List.map_singleton, QuorumCatalog.run_cons, QuorumCatalog.run_nil, hview]
  simp [RankView.receiveAll, hrank]
  rfl

/-- A delivered report passes validation. -/
theorem validate_emission (h : Delivers config b mutations ops r c calls K) (hk : k < K) :
    validateGenerationIdentity ((afterReports b r k).emission b).report.toRaw.generation
        ((afterReports b r k).emission b).report.toRaw.generationEpoch = .ok config.identity ∧
      validateInventoryReport config.bounds ((afterReports b r k).emission b).report.toRaw =
        .ok ((afterReports b r k).emission b).report := by
  have hstate := InventoryReporter.runState_after h.runState k
  have hok := h.emissionOk k
  have hcounters := h.counters _ (h.mem_nextReports hk)
  have hnext := InventoryReporter.nextReport_eq h.batch_pos (hstate.config_eq ▸ h.batch_le)
  refine ⟨?_, ?_⟩
  · rw [← validateGenerationIdentity_config, ← hok.generation, ← hok.generationEpoch]
    rfl
  · exact @InventoryReporter.validate_nextReport config (some (b : Int)) _ _ _ hstate hnext
      hcounters.1 hcounters.2

/-- A clean worker's report at a receiver that has stored the pages before it. -/
theorem deliver (h : Delivers config b mutations ops r c calls K) (hk : k < K)
    (hd : (afterReports b r k).dirty = false) :
    (Shows (afterReports b r k).sequence (afterReports b r k).observed
        (viewAfter config b r c calls k) →
      Shows (afterReports b r k).sequence (afterReports b r k).observed
        (viewAfter config b r c calls (k + 1))) ∧
    (Filled (afterReports b r k).sequence (afterReports b r k).checkpointCycle
        (afterReports b r k).checkpointIndex (viewAfter config b r c calls k) →
      Shows (afterReports b r k).sequence (afterReports b r k).observed
          (viewAfter config b r c calls (k + 1)) ∨
        (afterReports b r k).checkpointIndex + 1 <
            pageCount b (afterReports b r k).observed.size ∧
          Filled (afterReports b r k).sequence (afterReports b r k).checkpointCycle
            ((afterReports b r k).checkpointIndex + 1) (viewAfter config b r c calls (k + 1))) := by
  have hstate := InventoryReporter.runState_after h.runState k
  have hok := h.emissionOk k
  obtain ⟨hsequence, hcycle, hindex, hobserved⟩ :=
    InventoryReporter.emission_of_clean hstate.consistent hd
  obtain ⟨hidentity, hvalid⟩ := h.validate_emission hk
  obtain ⟨w, hready, hreceive, hw⟩ := (h.ready k).receive_report hidentity hvalid
  have hunique := (InventoryReporter.runInv_runOps config (some (b : Int)) mutations
    (ops ++ List.replicate (k + 1) .report)).logged.unique
  have hlog := InventoryReporter.emittedImages_subset (some (b : Int)) (started config mutations)
    (ops ++ List.replicate k .report) [.report]
  rw [List.append_assoc, ← List.replicate_succ'] at hlog
  rw [h.view_succ hk, hreceive]
  refine ⟨fun hv ↦ ?_, fun hv ↦ ?_⟩
  · rw [← hsequence, ← hobserved] at hv ⊢
    rw [hw ((h.ready k).shown hv.synchronized)]
    exact Shows.applyValid (h.ready k) hok hlog hunique hsequence.ge hv
  · have hfilled : Filled (afterReports b r k).sequence (afterReports b r k).checkpointCycle
        (afterReports b r k).checkpointIndex w := by
      rcases hv with hz | ⟨p, hp, hpages⟩
      · exact .inl hz
      · rw [hw ((h.ready k).pending p hp).1]
        exact .inr ⟨p, hp, hpages⟩
    rw [← hsequence, ← hcycle, ← hindex] at hfilled ⊢
    rw [← hobserved]
    exact Filled.applyValid hready hok hlog hunique hsequence.ge hfilled

private theorem after_succ (h : Delivers config b mutations ops r c calls K)
    (hd : (afterReports b r k).dirty = false) :
    afterReports b r (k + 1) = (afterReports b r k).advanceCursors b := by
  have hstate := InventoryReporter.runState_after h.runState k
  rw [(InventoryReporter.next_succ h.batch_pos h.batch_le h.runState k).1,
    InventoryReporter.reported_of_clean hstate.consistent hd]

private theorem clean_add (h : Delivers config b mutations ops r c calls K)
    (hd : (afterReports b r k).dirty = false) (d : Nat) :
    (afterReports b r (k + d)).dirty = false := by
  induction d with
  | zero => exact hd
  | succ d ih =>
    rw [← Nat.add_assoc, h.after_succ ih]
    exact ih

/-- A rank that shows what a clean worker holds goes on to show it. -/
theorem shows_add (h : Delivers config b mutations ops r c calls K)
    (hd : (afterReports b r k).dirty = false)
    (hv : Shows (afterReports b r k).sequence (afterReports b r k).observed
      (viewAfter config b r c calls k)) (d : Nat) (hK : k + d ≤ K) :
    Shows (afterReports b r (k + d)).sequence (afterReports b r (k + d)).observed
      (viewAfter config b r c calls (k + d)) := by
  induction d with
  | zero => exact hv
  | succ d ih =>
    have hclean := h.clean_add hd d
    have hnext := (h.deliver (by omega) hclean).1 (ih (by omega))
    rw [← Nat.add_assoc, h.after_succ hclean]
    exact hnext

/-- The pages of a clean worker's cycle number the entries it holds. -/
theorem index_lt (h : Delivers config b mutations ops r c calls K)
    (hd : (afterReports b r k).dirty = false) :
    (afterReports b r k).checkpointItems.length = r.held.size ∧
      (afterReports b r k).observed.size = r.held.size ∧
      (afterReports b r k).checkpointIndex < pageCount b r.held.size := by
  have hcons := (InventoryReporter.runState_after h.runState k).consistent
  have hsize : (afterReports b r k).observed.size = r.held.size := by
    rw [← (hcons.clean hd).size_eq, InventoryReporter.held_after h.batch_pos h.batch_le h.runState]
  have hlength : (afterReports b r k).checkpointItems.length = r.held.size := by
    rw [hcons.items, OrderedDict.length_sortedItems, hsize]
  have hindex := hcons.index
  rw [hlength] at hindex
  exact ⟨hlength, hsize, hindex⟩

/-- With the pages before the next one stored, the rest of the cycle shows the image. -/
theorem shows_of_filled (h : Delivers config b mutations ops r c calls K) (d : Nat)
    (hK : k + d ≤ K) (hd : (afterReports b r k).dirty = false)
    (hrest : pageCount b r.held.size ≤ (afterReports b r k).checkpointIndex + d)
    (hv : Filled (afterReports b r k).sequence (afterReports b r k).checkpointCycle
      (afterReports b r k).checkpointIndex (viewAfter config b r c calls k)) :
    Shows (afterReports b r (k + d)).sequence (afterReports b r (k + d)).observed
      (viewAfter config b r c calls (k + d)) := by
  induction d generalizing k with
  | zero =>
    have hindex := (h.index_lt hd).2.2
    omega
  | succ d ih =>
    have hsucc := h.after_succ hd
    have hclean := h.clean_add hd 1
    have hassoc : k + (d + 1) = k + 1 + d := by omega
    rw [hassoc] at hK ⊢
    rcases (h.deliver (by omega) hd).2 hv with hshows | ⟨hlt, hfilled⟩
    · refine h.shows_add hclean ?_ d hK
      rw [hsucc]
      exact hshows
    · rw [(h.index_lt hd).2.1] at hlt
      have hindex : (afterReports b r (k + 1)).checkpointIndex =
          (afterReports b r k).checkpointIndex + 1 := by
        rw [hsucc]
        change (if pageCount b (afterReports b r k).checkpointItems.length ≤ _ then _ else _) = _
        rw [(h.index_lt hd).1, if_neg (by omega)]
      have hcycle : (afterReports b r (k + 1)).checkpointCycle =
          (afterReports b r k).checkpointCycle := by
        rw [hsucc]
        change (if pageCount b (afterReports b r k).checkpointItems.length ≤ _ then _ else _) = _
        rw [(h.index_lt hd).1, if_neg (by omega)]
      have hsequence : (afterReports b r (k + 1)).sequence = (afterReports b r k).sequence := by
        rw [hsucc]
        rfl
      refine ih hK hclean (by omega) ?_
      rw [hsequence, hcycle, hindex]
      exact hfilled

/-- Whatever a receiver has stored, the rest of a clean worker's cycle and the next one show the
image. -/
theorem shows_of_clean (h : Delivers config b mutations ops r c calls K) (d : Nat)
    (hK : k + d ≤ K) (hd : (afterReports b r k).dirty = false)
    (hrest : 2 * pageCount b r.held.size ≤ (afterReports b r k).checkpointIndex + d) :
    Shows (afterReports b r (k + d)).sequence (afterReports b r (k + d)).observed
      (viewAfter config b r c calls (k + d)) := by
  induction d generalizing k with
  | zero =>
    have hindex := (h.index_lt hd).2.2
    omega
  | succ d ih =>
    have hsucc := h.after_succ hd
    have hclean := h.clean_add hd 1
    have hassoc : k + (d + 1) = k + 1 + d := by omega
    have hindex : (afterReports b r (k + 1)).checkpointIndex =
        if pageCount b r.held.size ≤ (afterReports b r k).checkpointIndex + 1 then 0
        else (afterReports b r k).checkpointIndex + 1 := by
      rw [hsucc, ← (h.index_lt hd).1]
      rfl
    have hlt := (h.index_lt hd).2.2
    rw [hassoc] at hK ⊢
    split at hindex
    · -- the next report starts a cycle
      exact h.shows_of_filled d hK hclean (by omega) (.inl hindex)
    · exact ih hK hclean (by omega)

end Delivers

/-- Convergence: a worker with `n` held entries that is not mutated any more reports batches of `b`
entries. Whatever messages of it had arrived, after `3 * max 1 ⌈n / b⌉ + 1` reports in order the rank
is synchronized and shows what the worker holds, and after every later report. -/
theorem inventory_converges (config : ReporterConfig) (b : Nat) (hb : 0 < b)
    (hle : b ≤ config.bounds.maxReportEntries) (mutations : List Mutation) (ops : List Op)
    (ranks : List PyInt) (c : QuorumCatalog)
    (hc : QuorumCatalog.create ranks config.bounds = .ok c) (hr : config.rank ∈ c.expectedRanks)
    (calls : List Call)
    (hcalls : ∀ m ∈ calls, m.rank? c.expectedRanks = some config.rank →
      WorkerMessage config (some (b : Int)) mutations ops m)
    (r : InventoryReporter) (hreached : r = runOps (some (b : Int)) (started config mutations) ops)
    (k : Nat) (hk : 3 * pageCount b r.held.size + 1 ≤ k)
    (hcounters : ∀ e ∈ nextReports b r k,
      e.report.checkpoint.sequence ≤ maxCounter ∧ e.report.checkpoint.cycle ≤ maxCounter)
    (hfits : FitsBound (c.run calls) ((nextReports b r k).map reportCall)) :
    config.rank ∉ (c.run (calls ++ (nextReports b r k).map reportCall)).desynchronized ∧
      OrderedDict.Same
        ((c.run (calls ++ (nextReports b r k).map reportCall)).rankEntries config.rank)
        r.held := by
  have h : Delivers config b mutations ops r c calls k :=
    ⟨hb, hle, hreached, ⟨ranks, hc⟩, hr, hcalls, hcounters, hfits⟩
  have hclean := InventoryReporter.clean_after hb hle h.runState
  obtain ⟨d, rfl⟩ := Nat.exists_eq_add_of_le (show pageCount b r.held.size + 1 ≤ k by omega)
  have hshows := h.shows_of_clean d le_rfl hclean (by omega)
  have hsame := (InventoryReporter.runState_after h.runState
    (pageCount b r.held.size + 1 + d)).consistent.clean (h.clean_add hclean d)
  rw [InventoryReporter.held_after hb hle h.runState] at hsame
  exact ⟨(QuorumCatalog.synchronized_view _ _).mp hshows.synchronized,
    hshows.image.trans hsame.symm⟩

/-- What the worker does before it rests. -/
def convergenceOps : List Op :=
  [.mutate (.remove (.ofNat 5)), .report, .mutate (.add (some (.ofNat 7)) (some 256)), .report,
    .mutate (.add (some (.ofNat 8)) (some 256))]

/-- The worker at rest, with three entries of which one was not told. -/
def convergenceReporter : InventoryReporter :=
  runOps (some ((1 : Nat) : Int)) (started sampleConfig sampleMutations) convergenceOps

/-- Of its messages only the first report has arrived. -/
def convergenceCalls : List Call :=
  ((workerEmissions sampleConfig (some ((1 : Nat) : Int)) sampleMutations convergenceOps).take 1).map
    reportCall

/-- After ten more reports the catalog has the image of the reporter. -/
theorem inventory_converges_sample :
    0 ∉ (sampleCatalog.run (convergenceCalls ++
        (nextReports 1 convergenceReporter 10).map reportCall)).desynchronized ∧
      OrderedDict.Same ((sampleCatalog.run (convergenceCalls ++
        (nextReports 1 convergenceReporter 10).map reportCall)).rankEntries 0)
        convergenceReporter.held := by
  refine inventory_converges sampleConfig 1 Nat.one_pos (by decide) sampleMutations
    convergenceOps [some 0] sampleCatalog (by rfl) (by decide) convergenceCalls ?_
    convergenceReporter rfl 10 (by decide +kernel) (by decide +kernel) ?_
  · intro m hm _
    obtain ⟨e, he, rfl⟩ := List.mem_map.mp hm
    exact .inr ⟨e, List.mem_of_mem_take he, rfl⟩
  · unfold FitsBound
    decide +kernel

/-! ### Reports beyond the counters -/

private theorem evictions_call_invalid {c : QuorumCatalog} {raw : RawReport}
    (hv : ∀ report, validateInventoryReport c.bounds raw ≠ .ok report) :
    (c.call (.report raw)).boundEvictions = c.boundEvictions := by
  have hmark : ∀ rank, (c.markGenerationConflict rank).boundEvictions = c.boundEvictions := by
    intro rank
    refine (QuorumCatalog.evictions_withdrawRank _ rank).trans ?_
    split <;> rfl
  have hbody : ∀ (c' : QuorumCatalog) (rank : Nat), c'.bounds = c.bounds →
      (c'.applyBody rank raw).boundEvictions = c'.boundEvictions := by
    intro c' rank hb
    unfold QuorumCatalog.applyBody
    split
    · exact QuorumCatalog.evictions_withdrawRank _ rank
    · next report hr =>
      rw [hb] at hr
      exact absurd hr (hv report)
  have hadopt : ∀ rank identity, ((c.adoptGeneration rank identity).applyBody rank
      raw).boundEvictions = c.boundEvictions := fun rank identity ↦
    (hbody _ rank (QuorumCatalog.movesTo_adoptGeneration c rank identity).bounds).trans
      (QuorumCatalog.evictions_adoptGeneration c rank identity)
  change (c.applyReport raw).1.boundEvictions = _
  unfold QuorumCatalog.applyReport
  split
  · rfl
  · next rank _ =>
    split
    · exact hmark rank
    · next identity _ =>
      split
      · rfl
      · exact hmark rank
      · exact hadopt rank identity
      · exact hadopt rank identity
      · exact hbody c rank rfl

private theorem synchronized_receive_invalid {bounds : InventoryBounds} {v : RankView}
    {raw : RawReport} (hv : ∀ report, validateInventoryReport bounds raw ≠ .ok report)
    (hs : v.synchronized = false) : (v.receive bounds (.report raw)).synchronized = false := by
  have hbody : ∀ w : RankView, (w.applyBody bounds raw).synchronized = false := by
    intro w
    unfold RankView.applyBody
    split
    · rfl
    · next report hr => exact absurd hr (hv report)
  change (v.receiveReport bounds raw).synchronized = false
  unfold RankView.receiveReport
  split
  · rfl
  · split
    · exact hs
    · rfl
    · exact hbody _
    · exact hbody _
    · exact hbody _

/-- Invalid reports evict nothing and synchronize no rank. -/
theorem run_invalid {c : QuorumCatalog} {reports : List RawReport}
    (hv : ∀ raw ∈ reports, ∀ report, validateInventoryReport c.bounds raw ≠ .ok report) (q : Nat) :
    FitsBound c (reports.map .report) ∧
      (q ∈ c.desynchronized → q ∈ (c.run (reports.map .report)).desynchronized) := by
  induction reports generalizing c with
  | nil => exact ⟨rfl, id⟩
  | cons raw reports ih =>
    have hhead := hv raw List.mem_cons_self
    obtain ⟨hbounds, -, -, hview⟩ := QuorumCatalog.view_call c (.report raw) q
    have htail : ∀ raw' ∈ reports, ∀ report,
        validateInventoryReport (c.call (.report raw)).bounds raw' ≠ .ok report := by
      rw [hbounds]
      exact fun raw' hraw ↦ hv raw' (List.mem_cons_of_mem raw hraw)
    obtain ⟨hfits, hdesync⟩ := ih htail
    refine ⟨hfits.trans (evictions_call_invalid hhead), fun hq ↦ hdesync ?_⟩
    rw [← QuorumCatalog.desynchronized_view] at hq ⊢
    rw [hview.rest]
    by_cases hrank : (Call.report raw).rank? c.expectedRanks = some q
    · simpa [RankView.receiveAll, hrank] using synchronized_receive_invalid hhead hq
    · simpa [RankView.receiveAll, hrank] using hq

private theorem validate_of_cycle {bounds : InventoryBounds}
    {report report' : WorkerInventoryReport} (hcycle : maxCounter < report.checkpoint.cycle) :
    validateInventoryReport bounds report.toRaw ≠ .ok report' := by
  intro h
  have hcheckpoint := (validateInventoryReport_ok h).1
  simp only [WorkerInventoryReport.toRaw, InventoryCheckpoint.toRaw, validateCheckpoint] at hcheckpoint
  rw [if_pos (by omega)] at hcheckpoint
  cases hcheckpoint

/-- A worker that holds nothing starts a new cycle with each report. -/
theorem cycle_after_idle {config : ReporterConfig} {b : Nat} {r : InventoryReporter} (hb : 0 < b)
    (hle : b ≤ config.bounds.maxReportEntries) (h : RunState config b r) (hd : r.dirty = false)
    (hheld : r.held.size = 0) (k : Nat) :
    (afterReports b r k).dirty = false ∧
      (afterReports b r k).checkpointCycle = r.checkpointCycle + k := by
  induction k with
  | zero => exact ⟨hd, rfl⟩
  | succ k ih =>
    obtain ⟨hdirty, hcycle⟩ := ih
    have hcons := (InventoryReporter.runState_after h k).consistent
    have hlength : (afterReports b r k).checkpointItems.length = 0 := by
      rw [hcons.items, OrderedDict.length_sortedItems, ← (hcons.clean hdirty).size_eq,
        InventoryReporter.held_after hb hle h, hheld]
    have hpages : pageCount b 0 = 1 := by
      unfold pageCount
      rw [Nat.zero_add, Nat.div_eq_of_lt (by omega)]
      rfl
    rw [(InventoryReporter.next_succ hb hle h k).1,
      InventoryReporter.reported_of_clean hcons hdirty]
    refine ⟨hdirty, ?_⟩
    change (if pageCount b (afterReports b r k).checkpointItems.length ≤ _ then _ else _) = _
    rw [hlength, hpages, if_pos (by omega), hcycle]
    rfl

/-- A worker without entries: once its cycle counter has passed `_MAX_COUNTER`, no report of it is
valid, and its rank stays desynchronized. -/
theorem convergence_ends_at_max_counter :
    ¬ ∀ (config : ReporterConfig) (b : Nat), 0 < b → b ≤ config.bounds.maxReportEntries →
      ∀ (mutations : List Mutation) (ops : List Op) (ranks : List PyInt) (c : QuorumCatalog),
      QuorumCatalog.create ranks config.bounds = .ok c → config.rank ∈ c.expectedRanks →
      ∀ calls : List Call, (∀ m ∈ calls, m.rank? c.expectedRanks = some config.rank →
        WorkerMessage config (some (b : Int)) mutations ops m) →
      config.rank ∉ (c.run calls).generationConflicts →
      ∀ r, r = runOps (some (b : Int)) (started config mutations) ops →
      ∀ k, 3 * pageCount b r.held.size + 1 ≤ k →
      FitsBound (c.run calls) ((nextReports b r k).map reportCall) →
      config.rank ∉ (c.run (calls ++ (nextReports b r k).map reportCall)).desynchronized ∧
        OrderedDict.Same
          ((c.run (calls ++ (nextReports b r k).map reportCall)).rankEntries config.rank)
          r.held := by
  intro hall
  obtain ⟨r, hr⟩ : ∃ r, r = runOps (some ((1 : Nat) : Int)) (started sampleReporterConfig [])
      (List.replicate (maxCounter + 1) .report) := ⟨_, rfl⟩
  have hstart := InventoryReporter.runState_started sampleReporterConfig 1 []
  have hbatch : 1 ≤ sampleReporterConfig.bounds.maxReportEntries := by decide
  have hstate : RunState sampleReporterConfig 1 r :=
    hr ▸ InventoryReporter.runState_after hstart (maxCounter + 1)
  have hheld : r.held.size = 0 := by
    rw [hr]
    exact congrArg OrderedDict.size
      (InventoryReporter.held_after Nat.one_pos hbatch hstart (maxCounter + 1))
  obtain ⟨hdirty, hcycle⟩ := cycle_after_idle Nat.one_pos hbatch hstart rfl rfl (maxCounter + 1)
  change (runOps _ _ _).dirty = false at hdirty
  change (runOps _ _ _).checkpointCycle = 0 + (maxCounter + 1) at hcycle
  rw [← hr] at hdirty hcycle
  have hinvalid : ∀ raw ∈ (nextReports 1 r 4).map fun e ↦ e.report.toRaw, ∀ report,
      validateInventoryReport sampleBounds raw ≠ .ok report := by
    intro raw hraw report
    obtain ⟨e, he, rfl⟩ := List.mem_map.mp hraw
    obtain ⟨k, rfl⟩ := InventoryReporter.exists_of_mem_nextReports Nat.one_pos hbatch hstate he
    obtain ⟨hclean, hlater⟩ := cycle_after_idle Nat.one_pos hbatch hstate hdirty hheld k
    have hcons := (InventoryReporter.runState_after hstate k).consistent
    apply validate_of_cycle
    rw [(InventoryReporter.emission_of_clean hcons hclean).2.1]
    omega
  obtain ⟨hfits, hdesync⟩ := @run_invalid (QuorumCatalog.fresh sampleBounds (Finset.range 1)) _
    hinvalid 0
  rw [List.map_map] at hfits hdesync
  have hclaim := hall sampleReporterConfig 1 Nat.one_pos hbatch []
    (List.replicate (maxCounter + 1) .report) [some 0]
    (QuorumCatalog.fresh sampleBounds (Finset.range 1)) (by rfl) (by decide) []
    (fun m hm ↦ (by cases hm)) (by decide) r hr 4 (by rw [hheld]; decide) hfits
  exact hclaim.1 (hdesync (by decide))

end SpoolCache.Quorum

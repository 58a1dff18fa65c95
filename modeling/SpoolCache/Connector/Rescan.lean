import SpoolCache.Base.Except
import SpoolCache.Quorum.Emission

/-!
# Forced withdrawals before a rescan

`maintenance.py:173–216` and `connector.py:1458–1501`. The scrub thread asks for a rescan of the
inventory under a new epoch, and after an unexpected failure it forces the worker to report an empty
image first. The worker reads the epoch and the force flag in two critical sections, so requests may
arrive between them. Only the latest forced epoch is remembered. Exceptions between `replace({})`
and the report that follows (a batch of markers, the lock of the root) are left out.
-/

namespace SpoolCache.Connector

open SpoolCache.Base SpoolCache.Quorum

/-! ### Epochs -/

/-- The rescan counters of `ScheduledDeepScrubber`, `maintenance.py:114–116`. -/
structure RescanEpochs where
  epoch : Nat
  acknowledged : Nat
  forceWithdrawal : Nat
  deriving DecidableEq

/-- `pending_inventory_rescan_epoch`, `maintenance.py:173–177`. -/
def pendingInventoryRescanEpoch (s : RescanEpochs) : Option Nat :=
  if s.epoch ≤ s.acknowledged then none else some s.epoch

/-- `require_inventory_rescan`, `maintenance.py:179–190`. -/
def requireInventoryRescan (s : RescanEpochs) (force : Bool) : Except PyError RescanEpochs :=
  if maxCounter ≤ s.epoch then
    .error (.runtimeError "deep scrub inventory rescan epoch overflowed")
  else
    .ok { s with
      epoch := s.epoch + 1
      forceWithdrawal := if force then s.epoch + 1 else s.forceWithdrawal }

/-- `inventory_rescan_requires_withdrawal`, `maintenance.py:192–202`. -/
def inventoryRescanRequiresWithdrawal (s : RescanEpochs) (epoch : Nat) : Except PyError Bool :=
  if epoch = 0 then .error (.valueError "deep scrub inventory rescan epoch is invalid")
  else if s.epoch < epoch then
    .error (.valueError "deep scrub inventory rescan epoch is from the future")
  else .ok (decide (s.acknowledged < s.forceWithdrawal ∧ s.forceWithdrawal ≤ epoch))

/-- `acknowledge_inventory_rescan`, `maintenance.py:204–216`. -/
def acknowledgeInventoryRescan (s : RescanEpochs) (epoch : Nat) : Except PyError RescanEpochs :=
  if epoch = 0 then .error (.valueError "deep scrub inventory rescan epoch is invalid")
  else if s.epoch < epoch then
    .error (.valueError "deep scrub inventory rescan epoch is from the future")
  else .ok { s with acknowledged := max s.acknowledged epoch }

/-! ### The worker -/

/-- Where the worker is in `get_kv_connector_stats`: which epoch it read, and what it read of its
force flag. -/
inductive StatsPlace where
  | idle
  | pending (epoch : Nat)
  | chosen (epoch : Nat) (force : Bool)
  | scanned (epoch : Nat)
  | reporting
  deriving DecidableEq

/-- What happened: forced requests, images emptied by `replace({})`, reports with the image they
were built from, and acknowledgements. -/
inductive RescanEvent where
  | forced (epoch : Nat)
  | emptied
  | report (held : Image)
  | acknowledged (epoch : Nat)

/-- The scrub thread's counters, and the worker with its reporter. -/
structure RescanWorld where
  scrub : RescanEpochs
  reporter : InventoryReporter
  inventoryWithdrawnEpoch : Nat
  place : StatsPlace
  log : List RescanEvent

/-- What a thread does next. The worker changes its inventory only outside a stats call; the
withdrawal hook of the scrub thread removes entries at any time. `offers` is what a scan finds, if
it does not raise. -/
inductive RescanAction where
  | require (force : Bool)
  | remove (key : Digest)
  | work (m : InventoryReporter.Mutation)
  | stats (offers : Option (List RawEntry))

/-- `reporter.replace({})` with the epoch that is withdrawn, `connector.py:1478–1479` and
`connector.py:1499–1500`. -/
def withdrawAll (w : RescanWorld) (epoch : Nat) : RescanWorld :=
  { w with
    reporter := w.reporter.mutate (.replace [])
    inventoryWithdrawnEpoch := epoch
    place := .reporting
    log := w.log ++ [.emptied] }

/-- `REPORT_BATCH_SIZE`, `config.py:24`. -/
def reportBatchSize : Nat := 64

/-- The next step of a stats call, `connector.py:1465–1501` and `connector.py:1133–1148`. -/
def statsStep (w : RescanWorld) (offers : Option (List RawEntry)) : RescanWorld :=
  match w.place with
  | .idle =>
    match pendingInventoryRescanEpoch w.scrub with
    | none => { w with place := .reporting }
    | some epoch => { w with place := .pending epoch }
  | .pending epoch =>
    match inventoryRescanRequiresWithdrawal w.scrub epoch with
    | .error _ => { w with place := .idle }
    | .ok force => { w with place := .chosen epoch force }
  | .chosen epoch force =>
    if force = true ∧ w.inventoryWithdrawnEpoch < epoch then withdrawAll w epoch
    else
      match offers with
      | none => withdrawAll w epoch
      | some offers =>
        match w.reporter.replace offers with
        | .error _ => withdrawAll w epoch
        | .ok reporter => { w with reporter := reporter, place := .scanned epoch }
  | .scanned epoch =>
    match acknowledgeInventoryRescan w.scrub epoch with
    | .error _ => withdrawAll w epoch
    | .ok scrub =>
      { w with scrub := scrub, place := .reporting, log := w.log ++ [.acknowledged epoch] }
  | .reporting =>
    match w.reporter.nextReport (some reportBatchSize) with
    | .error _ => { w with place := .idle }
    | .ok (_, reporter) =>
      { w with reporter := reporter, place := .idle, log := w.log ++ [.report w.reporter.held] }

/-- One action. -/
def rescanAct (w : RescanWorld) : RescanAction → RescanWorld
  | .require force =>
    match requireInventoryRescan w.scrub force with
    | .error _ => w
    | .ok scrub =>
      { w with
        scrub := scrub
        log := if force then w.log ++ [.forced scrub.epoch] else w.log }
  | .remove key => { w with reporter := w.reporter.remove key }
  | .work m => if w.place = .idle then { w with reporter := w.reporter.mutate m } else w
  | .stats offers => statsStep w offers

/-- A forced request does not arrive between the two reads of the worker while an earlier one, not
above the epoch that was read, is neither acknowledged nor withdrawn. -/
def Timely (w : RescanWorld) : RescanAction → Prop
  | .require true => ∀ epoch, w.place = .pending epoch →
    ¬ (w.scrub.acknowledged < w.scrub.forceWithdrawal ∧ w.scrub.forceWithdrawal ≤ epoch ∧
      w.inventoryWithdrawnEpoch < w.scrub.forceWithdrawal)
  | _ => True

/-- A worker with any reporter, before the first request. -/
def RescanWorld.fresh (reporter : InventoryReporter) : RescanWorld :=
  ⟨⟨0, 0, 0⟩, reporter, 0, .idle, []⟩

/-- A run of actions, each of which is timely if `timely` is set. The worker builds its reporter
with `max_report_entries=REPORT_BATCH_SIZE`, `connector.py:603–609`. -/
inductive RescanRun (timely : Bool) : RescanWorld → Prop where
  | start (reporter : InventoryReporter)
      (hbounds : reporter.config.bounds.maxReportEntries = reportBatchSize) :
      RescanRun timely (.fresh reporter)
  | act {w : RescanWorld} (h : RescanRun timely w) (action : RescanAction)
      (htimely : timely = true → Timely w action) : RescanRun timely (rescanAct w action)

/-! ### Reports that cross -/

/-- The image was emptied after the request, and only requests followed. -/
def Emptied (log : List RescanEvent) (epoch : Nat) : Prop :=
  ∃ before mid between, log = before ++ .forced epoch :: (mid ++ .emptied :: between) ∧
    ∀ e ∈ between, ∃ forced, e = .forced forced

/-- After the request the image was emptied, and a report was built from it before anything was
added. -/
def Crossed (log : List RescanEvent) (epoch : Nat) : Prop :=
  ∃ upto after, log = upto ++ .report .empty :: after ∧ Emptied upto epoch

private theorem Crossed.append {log : List RescanEvent} {epoch : Nat} (h : Crossed log epoch)
    (more : List RescanEvent) : Crossed (log ++ more) epoch := by
  obtain ⟨upto, after, rfl, hempty⟩ := h
  refine ⟨upto, after ++ more, ?_, hempty⟩
  rw [List.append_assoc, List.cons_append]

private theorem emptied_append {log : List RescanEvent} {epoch : Nat} (h : .forced epoch ∈ log) :
    Emptied (log ++ [.emptied]) epoch := by
  obtain ⟨before, after, rfl⟩ := List.append_of_mem h
  refine ⟨before, after, [], ?_, fun e he ↦ absurd he List.not_mem_nil⟩
  rw [List.append_assoc, List.cons_append]

private theorem Emptied.forced {log : List RescanEvent} {epoch : Nat} (h : Emptied log epoch)
    (e : Nat) :
    Emptied (log ++ [.forced e]) epoch := by
  obtain ⟨before, mid, between, rfl, hb⟩ := h
  refine ⟨before, mid, between ++ [.forced e], ?_, ?_⟩
  · simp only [List.append_assoc, List.cons_append]
  · intro x hx
    rcases List.mem_append.mp hx with hx | hx
    · exact hb x hx
    · exact ⟨e, List.mem_singleton.mp hx⟩

/-- Every acknowledgement comes after a report of the emptied image for each forced request that it
acknowledges first. -/
def Withdrawn (log : List RescanEvent) : Prop :=
  ∀ before epoch after, log = before ++ .acknowledged epoch :: after →
    ∀ forced ≤ epoch, .forced forced ∈ before →
      (∀ earlier, .acknowledged earlier ∈ before → earlier < forced) → Crossed before forced

private theorem Withdrawn.append {log : List RescanEvent} (h : Withdrawn log) {e : RescanEvent}
    (he : ∀ epoch, e = .acknowledged epoch → ∀ forced ≤ epoch, .forced forced ∈ log →
      (∀ earlier, .acknowledged earlier ∈ log → earlier < forced) → Crossed log forced) :
    Withdrawn (log ++ [e]) := by
  intro before epoch after heq
  rcases List.eq_nil_or_concat after with rfl | ⟨rest, last, rfl⟩
  · have hparts := List.append_inj' heq rfl
    rw [← hparts.1]
    exact he epoch (List.cons.inj hparts.2).1
  · rw [List.concat_eq_append, ← List.cons_append, ← List.append_assoc] at heq
    exact h before epoch rest (List.append_inj' heq rfl).1

/-! ### The invariant -/

/-- No forced request up to the epoch is pending that was not withdrawn. -/
def Covered (w : RescanWorld) (epoch : Nat) : Prop :=
  ∀ forced ≤ epoch, .forced forced ∈ w.log → w.scrub.acknowledged < forced →
    forced ≤ w.inventoryWithdrawnEpoch

/-- What the worker knows at each place. -/
def PlaceInv (w : RescanWorld) : Prop :=
  match w.place with
  | .idle => True
  | .pending epoch => epoch ≤ w.scrub.epoch ∧
    (Covered w epoch ∨ w.scrub.forceWithdrawal ≤ epoch)
  | .chosen epoch force => epoch ≤ w.scrub.epoch ∧ (force = false → Covered w epoch)
  | .scanned epoch => epoch ≤ w.scrub.epoch ∧ Covered w epoch
  | .reporting => True

/-- The invariant of timely runs. -/
structure RescanInv (w : RescanWorld) : Prop where
  bounds : w.reporter.config.bounds.maxReportEntries = reportBatchSize
  force_le : w.scrub.forceWithdrawal ≤ w.scrub.epoch
  withdrawn_le : w.inventoryWithdrawnEpoch ≤ w.scrub.epoch
  forced : ∀ epoch, .forced epoch ∈ w.log → 0 < epoch ∧ epoch ≤ w.scrub.forceWithdrawal
  last : w.scrub.acknowledged = 0 ∨ .acknowledged w.scrub.acknowledged ∈ w.log
  crossed : ∀ epoch ≤ w.inventoryWithdrawnEpoch, .forced epoch ∈ w.log →
    Crossed w.log epoch ∨
      w.place = .reporting ∧ w.reporter.held = .empty ∧ Emptied w.log epoch
  place : PlaceInv w
  log : Withdrawn w.log

private theorem rescanInv_fresh (reporter : InventoryReporter)
    (hbounds : reporter.config.bounds.maxReportEntries = reportBatchSize) :
    RescanInv (.fresh reporter) where
  bounds := hbounds
  force_le := le_rfl
  withdrawn_le := le_rfl
  forced := fun _ h ↦ absurd h List.not_mem_nil
  last := .inl rfl
  crossed := fun _ _ h ↦ absurd h List.not_mem_nil
  place := trivial
  log := fun _ _ _ h ↦ absurd (congrArg List.length h) (by simp [RescanWorld.fresh])

private theorem requireInventoryRescan_ok {s t : RescanEpochs} {force : Bool}
    (h : requireInventoryRescan s force = .ok t) :
    t.epoch = s.epoch + 1 ∧ t.acknowledged = s.acknowledged ∧
      t.forceWithdrawal = if force then s.epoch + 1 else s.forceWithdrawal := by
  unfold requireInventoryRescan at h
  split at h
  · cases h
  · cases h
    exact ⟨rfl, rfl, rfl⟩

/-- A request keeps what the worker knows, as its epoch is above every one that was read. -/
theorem placeInv_request {w : RescanWorld} (h : PlaceInv w) {scrub : RescanEpochs}
    {log : List RescanEvent} (hepoch : w.scrub.epoch ≤ scrub.epoch)
    (hack : scrub.acknowledged = w.scrub.acknowledged)
    (hlog : ∀ epoch ≤ w.scrub.epoch, .forced epoch ∈ log → .forced epoch ∈ w.log)
    (hpending : ∀ epoch, w.place = .pending epoch → w.scrub.forceWithdrawal ≤ epoch →
      Covered w epoch ∨ scrub.forceWithdrawal ≤ epoch) :
    PlaceInv { w with scrub := scrub, log := log } := by
  have hcovered : ∀ epoch ≤ w.scrub.epoch, Covered w epoch →
      Covered { w with scrub := scrub, log := log } epoch := by
    intro epoch hle hc forced hforced hmem hlt
    exact hc forced hforced (hlog forced (hforced.trans hle) hmem) (hack ▸ hlt)
  unfold PlaceInv at h ⊢
  dsimp only
  cases hp : w.place with
  | idle => trivial
  | reporting => trivial
  | pending epoch =>
    rw [hp] at h
    refine ⟨h.1.trans hepoch, ?_⟩
    rcases h.2 with hc | hle
    · exact .inl (hcovered epoch h.1 hc)
    · exact (hpending epoch hp hle).imp_left (hcovered epoch h.1)
  | chosen epoch force =>
    rw [hp] at h
    exact ⟨h.1.trans hepoch, fun hf ↦ hcovered epoch h.1 (h.2 hf)⟩
  | scanned epoch =>
    rw [hp] at h
    exact ⟨h.1.trans hepoch, hcovered epoch h.1 h.2⟩

/-- A timely forced request finds every earlier one acknowledged or withdrawn. -/
theorem RescanInv.covered_of_timely {w : RescanWorld} (h : RescanInv w)
    (htimely : Timely w (.require true)) {epoch : Nat} (hplace : w.place = .pending epoch)
    (hle : w.scrub.forceWithdrawal ≤ epoch) : Covered w epoch := by
  intro forced _ hmem hlt
  have hforced := (h.forced forced hmem).2
  have hno := htimely epoch hplace
  by_contra hlt'
  exact hno ⟨hlt.trans_le hforced, hle, (not_le.mp hlt').trans_le hforced⟩

private theorem RescanInv.require {w : RescanWorld} (h : RescanInv w) (force : Bool)
    (htimely : Timely w (.require force)) : RescanInv (rescanAct w (.require force)) := by
  dsimp only [rescanAct]
  split
  · exact h
  · next scrub heq =>
    obtain ⟨hepoch, hack, hforce⟩ := requireInventoryRescan_ok heq
    have hle : w.scrub.epoch ≤ scrub.epoch := by omega
    have hwithdrawn := h.withdrawn_le.trans hle
    have hforce_le := h.force_le
    cases force with
    | false =>
      rw [if_neg Bool.false_ne_true] at hforce ⊢
      have hbelow : scrub.forceWithdrawal ≤ scrub.epoch := by omega
      refine ⟨h.bounds, hbelow, hwithdrawn, by rw [hforce]; exact h.forced,
        by rw [hack]; exact h.last, h.crossed, ?_, h.log⟩
      apply placeInv_request h.place hle hack (fun _ _ hmem ↦ hmem)
      intro epoch _ hepoch
      exact .inr (hforce ▸ hepoch)
    | true =>
      rw [if_pos rfl] at hforce ⊢
      have hmem : ∀ epoch, .forced epoch ∈ w.log ++ [.forced scrub.epoch] →
          .forced epoch ∈ w.log ∨ epoch = w.scrub.epoch + 1 := by
        intro epoch he
        rcases List.mem_append.mp he with he | he
        · exact .inl he
        · exact .inr ((RescanEvent.forced.inj (List.mem_singleton.mp he)).trans hepoch)
      have hbelow : scrub.forceWithdrawal ≤ scrub.epoch := by omega
      refine ⟨h.bounds, hbelow, hwithdrawn, ?_, ?_, ?_, ?_, ?_⟩
      · intro epoch he
        change 0 < epoch ∧ epoch ≤ scrub.forceWithdrawal
        rcases hmem epoch he with he | rfl
        · have := h.forced epoch he
          omega
        · omega
      · rw [hack]
        exact h.last.imp_right (List.mem_append_left _)
      · intro epoch hepoch' he
        have hlt : epoch < w.scrub.epoch + 1 := Nat.lt_succ_of_le (hepoch'.trans h.withdrawn_le)
        have he := (hmem epoch he).resolve_right hlt.ne
        rcases h.crossed epoch hepoch' he with hc | ⟨hp, hheld, hempty⟩
        · exact .inl (hc.append _)
        · exact .inr ⟨hp, hheld, hempty.forced _⟩
      · apply placeInv_request h.place hle hack
        · intro epoch hepoch' he
          exact (hmem epoch he).resolve_right (by omega)
        · intro epoch hp hepoch'
          exact .inl (h.covered_of_timely htimely hp hepoch')
      · exact h.log.append fun epoch he ↦ (by cases he)

/-! ### The worker's steps -/

private theorem config_mutate (r : InventoryReporter) (m : InventoryReporter.Mutation) :
    (r.mutate m).config = r.config := by
  cases m with
  | replace entries =>
    simp only [InventoryReporter.mutate, InventoryReporter.replace]
    cases validateEntries (InventoryReporter.selectEntries r.config.bounds 0 entries) <;> rfl
  | add entryId span =>
    simp only [InventoryReporter.mutate, InventoryReporter.add]
    cases validateEntry (.pair entryId span) <;> rfl
  | remove key => rfl

private theorem held_replace_nil (r : InventoryReporter) : (r.mutate (.replace [])).held = .empty :=
  rfl

private theorem RescanInv.withdrawAll {w : RescanWorld} (h : RescanInv w) {epoch : Nat}
    (hepoch : epoch ≤ w.scrub.epoch) : RescanInv (withdrawAll w epoch) := by
  have hmem : ∀ {e}, .forced e ∈ w.log ++ [.emptied] → .forced e ∈ w.log := by
    intro e he
    simpa using he
  refine ⟨?_, h.force_le, hepoch, fun e he ↦ h.forced e (hmem he),
    h.last.imp_right (List.mem_append_left _), ?_, trivial, ?_⟩
  · exact (congrArg (fun c ↦ c.bounds.maxReportEntries) (config_mutate _ _)).trans h.bounds
  · intro e _ he
    exact .inr ⟨rfl, held_replace_nil _, emptied_append (hmem he)⟩
  · exact h.log.append fun e he ↦ (by cases he)

private theorem config_replace {r r' : InventoryReporter} {offers : List RawEntry}
    (h : r.replace offers = .ok r') : r'.config = r.config := by
  obtain ⟨selected, -, heq⟩ := bind_ok h
  cases heq
  rfl

private theorem nextReport_total {r : InventoryReporter}
    (h : r.config.bounds.maxReportEntries = reportBatchSize) :
    ∃ report r', r.nextReport (some reportBatchSize) = .ok (report, r') ∧ r'.config = r.config := by
  unfold InventoryReporter.nextReport
  dsimp only
  rw [if_neg (by rw [h]; decide)]
  refine ⟨_, _, rfl, ?_⟩
  change (r.observe _).config = r.config
  rcases InventoryReporter.observe_cases r (Int.toNat reportBatchSize) with ⟨he, -⟩ | he
  · rw [he]
  · rw [he]
    exact InventoryReporter.config_advance r _

/-- A step that only moves on from a place without a report outstanding. -/
theorem RescanInv.move {w : RescanWorld} (h : RescanInv w) (hp : w.place ≠ .reporting)
    {reporter : InventoryReporter} (hconfig : reporter.config = w.reporter.config)
    {place : StatsPlace} (hplace : PlaceInv { w with reporter := reporter, place := place }) :
    RescanInv { w with reporter := reporter, place := place } where
  bounds := (congrArg (fun c ↦ c.bounds.maxReportEntries) hconfig).trans h.bounds
  force_le := h.force_le
  withdrawn_le := h.withdrawn_le
  forced := h.forced
  last := h.last
  crossed := fun epoch hle he ↦
    .inl ((h.crossed epoch hle he).resolve_right fun hr ↦ hp hr.1)
  place := hplace
  log := h.log

/-- A flag that was read as unset leaves no forced request uncovered. -/
theorem RescanInv.covered_of_flag {w : RescanWorld} (h : RescanInv w) {epoch : Nat}
    (hpending : Covered w epoch ∨ w.scrub.forceWithdrawal ≤ epoch)
    (hflag : inventoryRescanRequiresWithdrawal w.scrub epoch = .ok false) : Covered w epoch := by
  rcases hpending with hc | hle
  · exact hc
  · unfold inventoryRescanRequiresWithdrawal at hflag
    split at hflag
    · cases hflag
    · split at hflag
      · cases hflag
      · have hno := of_decide_eq_false (Except.ok.inj hflag)
        intro forced _ hmem hlt
        exact absurd ⟨hlt.trans_le (h.forced forced hmem).2, hle⟩ hno

/-- An acknowledgement of an epoch whose forced requests are covered. -/
theorem RescanInv.acknowledge {w : RescanWorld} (h : RescanInv w) {epoch : Nat}
    (hp : w.place = .scanned epoch) (hcovered : Covered w epoch) {scrub : RescanEpochs}
    (heq : acknowledgeInventoryRescan w.scrub epoch = .ok scrub) :
    RescanInv { w with
      scrub := scrub, place := .reporting, log := w.log ++ [.acknowledged epoch] } := by
  unfold acknowledgeInventoryRescan at heq
  split at heq
  · cases heq
  · split at heq
    · cases heq
    · cases heq
      have hmem : ∀ {e}, .forced e ∈ w.log ++ [.acknowledged epoch] → .forced e ∈ w.log := by
        intro e he
        simpa using he
      have hcrossed : ∀ e ≤ w.inventoryWithdrawnEpoch, .forced e ∈ w.log → Crossed w.log e := by
        intro e hle he
        refine (h.crossed e hle he).resolve_right fun hr ↦ ?_
        rw [hp] at hr
        cases hr.1
      refine ⟨h.bounds, h.force_le, h.withdrawn_le, fun e he ↦ h.forced e (hmem he), ?_,
        fun e hle he ↦ .inl ((hcrossed e hle (hmem he)).append _), trivial, ?_⟩
      · rcases le_total w.scrub.acknowledged epoch with hle | hle
        · rw [max_eq_right hle]
          exact .inr (List.mem_append_right _ List.mem_cons_self)
        · rw [max_eq_left hle]
          exact h.last.imp_right (List.mem_append_left _)
      · apply h.log.append
        intro e he forced hle hforced hfirst
        cases he
        apply hcrossed forced _ hforced
        apply hcovered forced hle hforced
        rcases h.last with hzero | hack
        · rw [hzero]
          exact (h.forced forced hforced).1
        · exact hfirst _ hack

/-- A report of the image that was emptied for it. -/
theorem RescanInv.report {w : RescanWorld} (h : RescanInv w) {reporter : InventoryReporter}
    (hconfig : reporter.config = w.reporter.config) :
    RescanInv { w with
      reporter := reporter, place := .idle, log := w.log ++ [.report w.reporter.held] } := by
  have hmem : ∀ {e}, .forced e ∈ w.log ++ [.report w.reporter.held] → .forced e ∈ w.log := by
    intro e he
    simpa using he
  refine ⟨(congrArg (fun c ↦ c.bounds.maxReportEntries) hconfig).trans h.bounds, h.force_le,
    h.withdrawn_le, fun e he ↦ h.forced e (hmem he), h.last.imp_right (List.mem_append_left _),
    ?_, trivial, h.log.append fun e he ↦ (by cases he)⟩
  intro e hle he
  rcases h.crossed e hle (hmem he) with hc | ⟨-, hheld, hempty⟩
  · exact .inl (hc.append _)
  · refine .inl ⟨w.log, [], ?_, hempty⟩
    rw [hheld]

/-- Every step of a stats call keeps the invariant. -/
theorem RescanInv.stats {w : RescanWorld} (h : RescanInv w) (offers : Option (List RawEntry)) :
    RescanInv (statsStep w offers) := by
  have hplace := h.place
  unfold PlaceInv at hplace
  unfold statsStep
  cases hp : w.place with
  | idle =>
    have hidle : w.place ≠ .reporting := by
      rw [hp]
      decide
    dsimp only
    split
    · exact h.move hidle rfl trivial
    · next epoch heq =>
      have hepoch : w.scrub.epoch = epoch := by
        unfold pendingInventoryRescanEpoch at heq
        split at heq
        · cases heq
        · exact Option.some.inj heq
      exact h.move hidle rfl ⟨hepoch.ge, .inr (h.force_le.trans hepoch.le)⟩
  | pending epoch =>
    rw [hp] at hplace
    have hpending : w.place ≠ .reporting := by
      rw [hp]
      exact StatsPlace.noConfusion
    dsimp only
    split
    · exact h.move hpending rfl trivial
    · next force hflag =>
      refine h.move hpending rfl ⟨hplace.1, fun hf ↦ ?_⟩
      exact h.covered_of_flag hplace.2 (hf ▸ hflag)
  | chosen epoch force =>
    rw [hp] at hplace
    have hchosen : w.place ≠ .reporting := by
      rw [hp]
      exact StatsPlace.noConfusion
    dsimp only
    split
    · exact h.withdrawAll hplace.1
    · next hno =>
      cases offers with
      | none => exact h.withdrawAll hplace.1
      | some offers =>
        dsimp only
        split
        · exact h.withdrawAll hplace.1
        · next reporter heq =>
          refine h.move hchosen (config_replace heq) ⟨hplace.1, ?_⟩
          cases force with
          | false => exact hplace.2 rfl
          | true =>
            -- the flag was set, but an image was already emptied for this epoch
            intro forced hle _ _
            have hdone : epoch ≤ w.inventoryWithdrawnEpoch := not_lt.mp fun hlt ↦ hno ⟨rfl, hlt⟩
            exact hle.trans hdone
  | scanned epoch =>
    rw [hp] at hplace
    dsimp only
    split
    · exact h.withdrawAll hplace.1
    · next scrub heq => exact h.acknowledge hp hplace.2 heq
  | reporting =>
    obtain ⟨report, reporter, heq, hconfig⟩ := nextReport_total h.bounds
    rw [heq]
    exact h.report hconfig

/-- Every timely action keeps the invariant. -/
theorem RescanInv.act {w : RescanWorld} (h : RescanInv w) (action : RescanAction)
    (htimely : Timely w action) : RescanInv (rescanAct w action) := by
  cases action with
  | require force => exact h.require force htimely
  | remove key =>
    refine ⟨h.bounds, h.force_le, h.withdrawn_le, h.forced, h.last, ?_, h.place, h.log⟩
    intro epoch hle he
    refine (h.crossed epoch hle he).imp_right fun ⟨hp, hheld, hempty⟩ ↦ ⟨hp, ?_, hempty⟩
    change w.reporter.held.erase key = .empty
    rw [hheld]
    rfl
  | work m =>
    dsimp only [rescanAct]
    split
    · next hp =>
      have hidle : w.place ≠ .reporting := by
        rw [hp]
        decide
      exact h.move hidle (config_mutate _ m) h.place
    · exact h
  | stats offers => exact h.stats offers

private theorem RescanRun.inv {w : RescanWorld} (h : RescanRun true w) : RescanInv w := by
  induction h with
  | start reporter hbounds => exact rescanInv_fresh reporter hbounds
  | act _ action htimely ih => exact ih.act action (htimely rfl)

/-- In every run whose forced requests are timely, an acknowledgement follows a report of the
emptied image for each forced request it acknowledges first. -/
theorem forced_withdrawal_crosses {w : RescanWorld} (h : RescanRun true w) : Withdrawn w.log :=
  h.inv.log

/-- A reporter of rank 0 with the bounds of a worker. -/
def rescanReporter : InventoryReporter :=
  .create ⟨0, "g", 0, ⟨1, 1048576, reportBatchSize, Nat.one_pos, Nat.succ_pos _, by decide⟩,
    maxInventoryReports_pos, generation_ne_empty, length_generation_le, Nat.zero_le _⟩

/-- One forced request: the worker reports an empty image, and acknowledges in its next call. -/
def rescanned : RescanWorld :=
  [.require true, .stats none, .stats none, .stats none, .stats none, .stats none, .stats none,
    .stats (some []), .stats none].foldl rescanAct (.fresh rescanReporter)

/-- The run has four events, and its acknowledgement follows the empty image. -/
theorem forced_withdrawal_crosses_rescanned :
    (rescanned.scrub = ⟨1, 1, 1⟩ ∧ rescanned.log.length = 4) ∧ Withdrawn rescanned.log := by
  refine ⟨⟨by decide +kernel, by decide +kernel⟩, forced_withdrawal_crosses ?_⟩
  have hstart : RescanRun true (.fresh rescanReporter) := .start rescanReporter rfl
  have hforced := hstart.act (.require true) fun _ epoch hp ↦ (by cases hp)
  have hcall := ((hforced.act (.stats none) fun _ ↦ trivial).act (.stats none) fun _ ↦ trivial)
  have hreport := ((hcall.act (.stats none) fun _ ↦ trivial).act (.stats none) fun _ ↦ trivial)
  have hnext := ((hreport.act (.stats none) fun _ ↦ trivial).act (.stats none) fun _ ↦ trivial)
  exact (hnext.act (.stats (some [])) fun _ ↦ trivial).act (.stats none) fun _ ↦ trivial

/-- A second forced request between the two reads hides the first: its epoch is acknowledged
although no report was made at all. -/
theorem forced_withdrawal_overtaken : ¬ ∀ w, RescanRun false w → Withdrawn w.log := by
  intro h
  have hrun : ∀ actions : List RescanAction,
      RescanRun false (actions.foldl rescanAct (.fresh rescanReporter)) := by
    intro actions
    induction actions using List.reverseRecOn with
    | nil => exact .start rescanReporter rfl
    | append_singleton actions action ih =>
      rw [List.foldl_append]
      exact ih.act action fun hf ↦ (by cases hf)
  have hlog := h _ (hrun [.require true, .stats none, .require true, .stats none, .stats (some []),
    .stats none])
  have hno := hlog [.forced 1, .forced 2] 1 [] rfl 1 le_rfl List.mem_cons_self
    (fun earlier he ↦ by simp at he)
  obtain ⟨upto, after, heq, -⟩ := hno
  have hmem : (RescanEvent.report .empty) ∈ [RescanEvent.forced 1, .forced 2] := by
    rw [heq]
    exact List.mem_append_right _ List.mem_cons_self
  simp at hmem

end SpoolCache.Connector

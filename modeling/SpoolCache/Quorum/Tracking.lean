import SpoolCache.Quorum.Receiver

/-!
# Invariants of a receiver

A receiver changes its image in three ways: a startup image, one delta on a synchronized base,
a complete checkpoint. `Tracks image page` says that the shown image satisfies `image` at the
recorded sequence and the pending checkpoint satisfies `page`, both relative to the adopted
identity, and that a desynchronized receiver shows nothing. `Tracks.receive` reduces its
preservation to one condition for each of those three ways and one for storing a page.
-/

namespace SpoolCache.Quorum.RankView

open SpoolCache.Base
open QuorumCatalog (Call Disposition pendingFor storePage flattenedPages updatedImage
  startupEntries)

/-- What is shown and what is pending, relative to the adopted identity. -/
structure Tracks (image : Identity → Nat → Image → Prop)
    (page : Identity → PendingCheckpoint → Prop) (v : RankView) : Prop where
  withdrawn : v.synchronized = false → v.image = .empty
  shown : v.synchronized = true → ∃ i, v.identity = some i ∧ image i v.sequence v.image
  stored : ∀ p, v.pending = some p → ∃ i, v.identity = some i ∧ page i p

/-- An empty pending record for a checkpoint page. -/
def freshPending (cp : InventoryCheckpoint) : PendingCheckpoint :=
  ⟨cp.sequence, cp.cycle, cp.count, cp.heldCount, .empty, 0⟩

/-- The pending record belongs to the checkpoint of the page. -/
structure Matches (p : PendingCheckpoint) (cp : InventoryCheckpoint) : Prop where
  sequence : p.sequence = cp.sequence
  cycle : p.cycle = cp.cycle
  count : p.count = cp.count
  heldCount : p.heldCount = cp.heldCount

/-- The checkpoint is complete and consistent. -/
structure Complete (p : PendingCheckpoint) : Prop where
  pages : p.pages.size = p.count
  length : (flattenedPages p).length = p.heldCount
  nodup : (OrderedDict.ofItems (flattenedPages p)).size = (flattenedPages p).length

/-- Conditions on one valid report under which a receiver keeps `Tracks`. -/
structure Carries (image : Identity → Nat → Image → Prop)
    (page : Identity → PendingCheckpoint → Prop) (i : Identity)
    (report : WorkerInventoryReport) : Prop where
  delta : ∀ d, report.delta = some d → ∀ m, d.sequence = d.baseSequence + 1 →
    image i d.baseSequence m → image i d.sequence (updatedImage m d)
  store : ∀ p, (p = freshPending report.checkpoint ∨ page i p) → Matches p report.checkpoint →
    report.checkpoint.index < report.checkpoint.count →
    (storePage p report.checkpoint).entryCount ≤ p.heldCount →
    page i (storePage p report.checkpoint)

/-- Conditions on one call under which a receiver keeps `Tracks`. -/
structure Admits (image : Identity → Nat → Image → Prop)
    (page : Identity → PendingCheckpoint → Prop) (bounds : InventoryBounds) (m : Call) :
    Prop where
  startup : ∀ rank generation epoch entries i start,
    m = .startup rank generation epoch entries →
    validateGenerationIdentity generation epoch = .ok i →
    startupEntries bounds entries = .ok start → image i 0 start
  report : ∀ raw i report, m = .report raw →
    validateGenerationIdentity raw.generation raw.generationEpoch = .ok i →
    validateInventoryReport bounds raw = .ok report → Carries image page i report

/-- A page opens a checkpoint, or belongs to the pending one of its sequence and cycle. -/
theorem pendingFor_cases (pending : Option PendingCheckpoint) (cp : InventoryCheckpoint) :
    pendingFor pending cp = freshPending cp ∨ pending = some (pendingFor pending cp) ∧
      (pendingFor pending cp).sequence = cp.sequence ∧
      (pendingFor pending cp).cycle = cp.cycle := by
  unfold pendingFor
  cases pending with
  | none => exact .inl rfl
  | some p =>
    dsimp only
    by_cases h : p.cycle ≠ cp.cycle ∨ p.sequence ≠ cp.sequence
    · rw [if_pos h]
      exact .inl rfl
    · rw [if_neg h]
      rw [not_or, not_not, not_not] at h
      exact .inr ⟨rfl, h.2, h.1⟩

/-- Only the adopted identity, free of conflicts, is current. -/
theorem identity_of_current {v : RankView} {i : Identity} (h : v.disposition i = .current) :
    v.identity = some i ∧ v.conflict = false := by
  unfold disposition at h
  split at h
  · cases h
  · next previous hp =>
    rw [hp]
    split at h
    · split at h <;> cases h
    · split at h
      · cases h
      · split at h
        · cases h
        · next h₁ h₂ h₃ =>
          rw [not_or, not_not, Bool.not_eq_true] at h₃
          have he : previous.2 = i.2 := by omega
          exact ⟨congrArg some (Prod.ext h₃.1.symm he), h₃.2⟩

namespace Tracks

variable {image : Identity → Nat → Image → Prop} {page : Identity → PendingCheckpoint → Prop}
  {v : RankView} {i : Identity}

private theorem desynchronize (h : Tracks image page v) : Tracks image page v.desynchronize :=
  ⟨fun _ ↦ rfl, fun hs ↦ (by cases hs), h.stored⟩

private theorem reject (v : RankView) : Tracks image page v.reject :=
  ⟨fun _ ↦ rfl, fun hs ↦ (by cases hs), fun _ hp ↦ (by cases hp)⟩

private theorem markConflict (v : RankView) : Tracks image page v.markConflict :=
  ⟨fun _ ↦ rfl, fun hs ↦ (by cases hs), fun _ hp ↦ (by cases hp)⟩

private theorem adopt (v : RankView) (i : Identity) : Tracks image page (v.adopt i) :=
  ⟨fun _ ↦ rfl, fun hs ↦ (by cases hs), fun _ hp ↦ (by cases hp)⟩

private theorem dropPending (h : Tracks image page v) : Tracks image page
    { v with pending := none } :=
  ⟨h.withdrawn, h.shown, fun _ hp ↦ by cases hp⟩

private theorem advance (h : Tracks image page v) (hi : v.identity = some i) {n : Nat} {m : Image}
    (hm : image i n m) : Tracks image page ({ v with sequence := n }.install m) :=
  ⟨fun hs ↦ (by cases hs), fun _ ↦ ⟨i, hi, hm⟩, h.stored⟩

private theorem applyDelta (h : Tracks image page v) (hi : v.identity = some i)
    {report : WorkerInventoryReport} (hc : Carries image page i report) :
    Tracks image page (v.applyDelta report.delta) := by
  unfold RankView.applyDelta
  split
  · exact h
  · next d hd =>
    split
    · exact h
    · next hs =>
      split
      · next hb =>
        obtain ⟨j, hj, him⟩ := h.shown (by simpa using hs)
        have hij : j = i := Option.some.inj (hj.symm.trans hi)
        subst hij
        rw [← hb.1] at him
        exact h.advance hi (hc.delta d hd v.image (by omega) him)
      · split
        · exact h.desynchronize
        · exact h

/-- A delta does not change the identity. -/
theorem identity_applyDelta (v : RankView) (delta : Option InventoryDelta) :
    (v.applyDelta delta).identity = v.identity := by
  unfold RankView.applyDelta
  split
  · rfl
  · split
    · rfl
    · split
      · rfl
      · split <;> rfl

/-- The check of a sequence does not change the identity. -/
theorem identity_checkSequence (v : RankView) (cp : InventoryCheckpoint) :
    (v.checkSequence cp).identity = v.identity := by
  unfold RankView.checkSequence
  split <;> rfl

private theorem checkSequence (h : Tracks image page v) (cp : InventoryCheckpoint) :
    Tracks image page (v.checkSequence cp) := by
  unfold RankView.checkSequence
  split
  · exact h.desynchronize
  · exact h

private theorem completeCheckpoint (h : Tracks image page v) (hi : v.identity = some i)
    {p : PendingCheckpoint} (hp : p.pages.size = p.count)
    (hc : Complete p → image i p.sequence (OrderedDict.ofItems (flattenedPages p))) :
    Tracks image page (v.completeCheckpoint p) := by
  unfold RankView.completeCheckpoint
  apply dropPending
  split
  · exact h
  · split
    · exact h.desynchronize
    · next hn =>
      rw [not_or, not_not, not_not] at hn
      exact h.advance hi (hc ⟨hp, hn.1, hn.2⟩)

private theorem applyCheckpoint (h : Tracks image page v) (hi : v.identity = some i)
    (hcomplete : ∀ p, page i p → Complete p →
      image i p.sequence (OrderedDict.ofItems (flattenedPages p)))
    {report : WorkerInventoryReport} (hc : Carries image page i report) :
    Tracks image page (v.applyCheckpoint report.checkpoint) := by
  have hs := h.checkSequence report.checkpoint
  have his : (v.checkSequence report.checkpoint).identity = some i := by
    rw [identity_checkSequence, hi]
  unfold RankView.applyCheckpoint
  generalize v.checkSequence report.checkpoint = w at hs his ⊢
  have hp := pendingFor_cases w.pending report.checkpoint
  dsimp only
  generalize pendingFor w.pending report.checkpoint = p at hp ⊢
  unfold RankView.storeCheckpoint
  split
  · exact reject w
  · next hm =>
    rw [not_or, not_or, not_or, not_not, not_not, not_not] at hm
    obtain ⟨-, hindex, hcount, hheld⟩ := hm
    dsimp only
    split
    · exact reject w
    · next hle =>
      have hstored : page i (storePage p report.checkpoint) := by
        rcases hp with rfl | ⟨hp, hseq, hcyc⟩
        · exact hc.store _ (.inl rfl) ⟨rfl, rfl, rfl, rfl⟩ hindex (by omega)
        · obtain ⟨j, hj, hpage⟩ := hs.stored p hp
          have hij : j = i := Option.some.inj (hj.symm.trans his)
          subst hij
          exact hc.store p (.inr hpage) ⟨hseq, hcyc, hcount.symm, hheld.symm⟩ hindex (by omega)
      have hset : Tracks image page { w with pending := some (storePage p report.checkpoint) } := by
        refine ⟨hs.withdrawn, hs.shown, ?_⟩
        intro p' hp'
        cases hp'
        exact ⟨i, his, hstored⟩
      split
      · next hsize =>
        exact hset.completeCheckpoint his hsize (fun hcp ↦ hcomplete _ hstored hcp)
      · exact hset

private theorem applyBody (h : Tracks image page v) (hi : v.identity = some i)
    (hcomplete : ∀ p, page i p → Complete p →
      image i p.sequence (OrderedDict.ofItems (flattenedPages p)))
    {bounds : InventoryBounds} {raw : RawReport}
    (hc : ∀ report, validateInventoryReport bounds raw = .ok report →
      Carries image page i report) : Tracks image page (v.applyBody bounds raw) := by
  unfold RankView.applyBody
  cases hv : validateInventoryReport bounds raw with
  | error e => exact reject v
  | ok report =>
    have hr := hc report hv
    exact (h.applyDelta hi hr).applyCheckpoint ((identity_applyDelta v _).trans hi) hcomplete hr

/-- A call keeps `Tracks` if it admits the predicates and each complete checkpoint does. -/
theorem receive (h : Tracks image page v) {bounds : InventoryBounds} {m : Call}
    (hcomplete : ∀ i p, page i p → Complete p →
      image i p.sequence (OrderedDict.ofItems (flattenedPages p)))
    (hm : Admits image page bounds m) : Tracks image page (v.receive bounds m) := by
  cases m with
  | startup rank generation epoch entries =>
    simp only [RankView.receive, RankView.receiveStartup]
    cases hi : validateGenerationIdentity generation epoch with
    | error e => exact markConflict v
    | ok i =>
      have ha : Tracks image page ((v.adopt i).installStartup bounds entries) := by
        unfold RankView.installStartup
        cases hs : startupEntries bounds entries with
        | error e => exact adopt v i
        | ok start =>
          exact (adopt v i).advance rfl (hm.startup _ _ _ _ i start rfl hi hs)
      dsimp only
      cases v.disposition i with
      | stale => exact h
      | conflict => exact markConflict v
      | current => exact h
      | initial => exact ha
      | newer => exact ha
  | report raw =>
    simp only [RankView.receive, RankView.receiveReport]
    cases hi : validateGenerationIdentity raw.generation raw.generationEpoch with
    | error e => exact markConflict v
    | ok i =>
      have hr := fun report hv ↦ hm.report raw i report rfl hi hv
      have ha : Tracks image page ((v.adopt i).applyBody bounds raw) :=
        (adopt v i).applyBody rfl (hcomplete i) hr
      dsimp only
      cases hd : v.disposition i with
      | stale => exact h
      | conflict => exact markConflict v
      | initial => exact ha
      | newer => exact ha
      | current =>
        exact h.applyBody (identity_of_current hd).1 (hcomplete i) hr
  | longest candidates => exact h
  | readQuorumCount => exact h

/-- Calls about the rank keep `Tracks` if each of them admits the predicates. -/
theorem receiveAll (h : Tracks image page v) {bounds : InventoryBounds} {ranks : Finset Nat}
    {r : Nat} {calls : List Call}
    (hcomplete : ∀ i p, page i p → Complete p →
      image i p.sequence (OrderedDict.ofItems (flattenedPages p)))
    (hm : ∀ m ∈ calls, m.rank? ranks = some r → Admits image page bounds m) :
    Tracks image page (RankView.receiveAll bounds ranks r v calls) := by
  induction calls generalizing v with
  | nil => exact h
  | cons m calls ih =>
    have htail := fun x hx ↦ hm x (List.mem_cons_of_mem m hx)
    by_cases hr : m.rank? ranks = some r
    · have hstep := h.receive hcomplete (hm m List.mem_cons_self hr)
      simpa [RankView.receiveAll, hr] using ih hstep htail
    · simpa [RankView.receiveAll, hr] using ih h htail

/-- Evicting entries keeps `Tracks` when the image predicate survives it. -/
theorem of_receives {e : Prop} {v' : RankView} (h : Tracks image page v) (hr : Receives e v' v)
    (hsub : ∀ i n a b, OrderedDict.SubDict a b → image i n b → image i n a) :
    Tracks image page v' := by
  have hid : v'.identity = v.identity := by rw [hr.rest]
  have hsq : v'.sequence = v.sequence := by rw [hr.rest]
  have hsy : v'.synchronized = v.synchronized := by rw [hr.rest]
  have hpe : v'.pending = v.pending := by rw [hr.rest]
  refine ⟨?_, ?_, ?_⟩
  · intro hs
    have he := h.withdrawn (hsy ▸ hs)
    apply OrderedDict.eq_empty_of_sub
    rw [← he]
    exact hr.sub
  · intro hs
    obtain ⟨i, hi, him⟩ := h.shown (hsy ▸ hs)
    rw [hid, hsq]
    exact ⟨i, hi, hsub i _ _ _ hr.sub him⟩
  · rw [hpe, hid]
    exact h.stored

end Tracks
end SpoolCache.Quorum.RankView

import SpoolCache.Quorum.Catalog

/-!
# One rank's receiver

What the catalog is for, one rank at a time. A `RankView` is everything the catalog keeps
about a rank; `RankView.receive` is a receiver for that rank alone, without the shared size
bound. `Receives` says that a view is a receiver state up to entries the bound has evicted:
every other field is equal, and the image is a subdictionary, equal when nothing was evicted.
-/

namespace SpoolCache.Quorum

open SpoolCache.Base

/-- What the catalog keeps about one rank. -/
structure RankView where
  identity : Option Identity
  history : List Identity
  conflict : Bool
  sequence : Nat
  pending : Option PendingCheckpoint
  synchronized : Bool
  image : Image

/-- The catalog's view of a rank. -/
def QuorumCatalog.view (c : QuorumCatalog) (rank : Nat) : RankView where
  identity := c.generation rank
  history := c.generationHistory rank
  conflict := decide (rank ∈ c.generationConflicts)
  sequence := c.sequences rank
  pending := c.pending rank
  synchronized := decide (rank ∉ c.desynchronized)
  image := c.rankEntries rank

/-- A view is synchronized when its rank is not listed as desynchronized. -/
theorem QuorumCatalog.synchronized_view (c : QuorumCatalog) (r : Nat) :
    (c.view r).synchronized = true ↔ r ∉ c.desynchronized := by
  simp [view]

/-- A view is desynchronized when its rank is listed so. -/
theorem QuorumCatalog.desynchronized_view (c : QuorumCatalog) (r : Nat) :
    (c.view r).synchronized = false ↔ r ∈ c.desynchronized := by
  simp [view]

namespace RankView

open QuorumCatalog (Disposition Call pendingFor storePage flattenedPages updatedImage pushBounded
  generationHistoryLimit startupEntries expectedRank?)

/-- Withdraw the image and wait for a complete checkpoint. -/
def desynchronize (v : RankView) : RankView := { v with image := .empty, synchronized := false }

/-- Drop the pending checkpoint and desynchronize. -/
def reject (v : RankView) : RankView := { v.desynchronize with pending := none }

/-- Show an image. -/
def install (v : RankView) (image : Image) : RankView :=
  { v with image := image, synchronized := true }

/-- How a process identity relates to the adopted one. -/
def disposition (v : RankView) (identity : Identity) : Disposition :=
  match v.identity with
  | none => .initial
  | some previous =>
    if identity.2 < previous.2 then
      if identity ∈ v.history then .stale else .conflict
    else if previous.2 < identity.2 then .newer
    else if identity.1 ≠ previous.1 ∨ v.conflict = true then .conflict
    else .current

/-- Superseded identities after `identity` is adopted. -/
def rememberedHistory (v : RankView) (identity : Identity) : List Identity :=
  match v.identity with
  | none => v.history
  | some previous =>
    if previous = identity then v.history
    else if previous ∈ v.history then v.history
    else pushBounded generationHistoryLimit v.history previous

/-- Start over with a new process. -/
def adopt (v : RankView) (identity : Identity) : RankView where
  identity := some identity
  history := v.rememberedHistory identity
  conflict := false
  sequence := 0
  pending := none
  synchronized := false
  image := .empty

/-- An identity that cannot be ordered: nothing is shown. -/
def markConflict (v : RankView) : RankView := { v.reject with conflict := true }

/-- Advance a synchronized base by one delta; a gap desynchronizes. -/
def applyDelta (v : RankView) (delta : Option InventoryDelta) : RankView :=
  match delta with
  | none => v
  | some d =>
    if v.synchronized = false then v
    else if d.baseSequence = v.sequence ∧ d.sequence = v.sequence + 1 then
      { v with sequence := d.sequence }.install (updatedImage v.image d)
    else if v.sequence < d.sequence then v.desynchronize
    else v

/-- A checkpoint ahead of the recorded sequence desynchronizes. -/
def checkSequence (v : RankView) (checkpoint : InventoryCheckpoint) : RankView :=
  if v.synchronized = true ∧ v.sequence < checkpoint.sequence then v.desynchronize else v

/-- Install a complete checkpoint unless it is superseded or inconsistent. -/
def completeCheckpoint (v : RankView) (p : PendingCheckpoint) : RankView :=
  let flattened := flattenedPages p
  let v :=
    if p.sequence < v.sequence then v
    else if flattened.length ≠ p.heldCount ∨
        (OrderedDict.ofItems flattened).size ≠ flattened.length then v.desynchronize
    else { v with sequence := p.sequence }.install (OrderedDict.ofItems flattened)
  { v with pending := none }

/-- Store one page of the chosen pending checkpoint. -/
def storeCheckpoint (v : RankView) (checkpoint : InventoryCheckpoint) (p : PendingCheckpoint) :
    RankView :=
  if checkpoint.count = 0 ∨ ¬ checkpoint.index < checkpoint.count ∨
      checkpoint.count ≠ p.count ∨ checkpoint.heldCount ≠ p.heldCount then v.reject
  else
    let stored := storePage p checkpoint
    if p.heldCount < stored.entryCount then v.reject
    else
      let v := { v with pending := some stored }
      if stored.pages.size = stored.count then v.completeCheckpoint stored else v

/-- The checkpoint page of a report. -/
def applyCheckpoint (v : RankView) (checkpoint : InventoryCheckpoint) : RankView :=
  let v := v.checkSequence checkpoint
  v.storeCheckpoint checkpoint (pendingFor v.pending checkpoint)

/-- A valid report of the adopted process. -/
def applyValid (v : RankView) (report : WorkerInventoryReport) : RankView :=
  (v.applyDelta report.delta).applyCheckpoint report.checkpoint

/-- A report of the adopted process. -/
def applyBody (bounds : InventoryBounds) (v : RankView) (report : RawReport) : RankView :=
  match validateInventoryReport bounds report with
  | .error _ => v.reject
  | .ok valid => v.applyValid valid

/-- A startup image of a process just adopted. -/
def installStartup (bounds : InventoryBounds) (v : RankView) (entries : EntryStream) : RankView :=
  match startupEntries bounds entries with
  | .error _ => v
  | .ok image => v.install image

/-- A startup call for this rank. -/
def receiveStartup (bounds : InventoryBounds) (v : RankView) (generation : Option String)
    (epoch : PyInt) (entries : EntryStream) : RankView :=
  match validateGenerationIdentity generation epoch with
  | .error _ => v.markConflict
  | .ok identity =>
    match v.disposition identity with
    | .stale => v
    | .conflict => v.markConflict
    | .current => v
    | .initial => (v.adopt identity).installStartup bounds entries
    | .newer => (v.adopt identity).installStartup bounds entries

/-- A report call for this rank. -/
def receiveReport (bounds : InventoryBounds) (v : RankView) (report : RawReport) : RankView :=
  match validateGenerationIdentity report.generation report.generationEpoch with
  | .error _ => v.markConflict
  | .ok identity =>
    match v.disposition identity with
    | .stale => v
    | .conflict => v.markConflict
    | .initial => (v.adopt identity).applyBody bounds report
    | .newer => (v.adopt identity).applyBody bounds report
    | .current => v.applyBody bounds report

/-- A call for this rank; queries do not concern the receiver. -/
def receive (bounds : InventoryBounds) (v : RankView) : Call → RankView
  | .startup _ generation epoch entries => v.receiveStartup bounds generation epoch entries
  | .report report => v.receiveReport bounds report
  | .longest _ => v
  | .readQuorumCount => v

/-- The receiver over the calls of a run that are about its rank. -/
def receiveAll (bounds : InventoryBounds) (expectedRanks : Finset Nat) (rank : Nat)
    (v : RankView) (calls : List Call) : RankView :=
  (calls.filter fun m ↦ decide (m.rank? expectedRanks = some rank)).foldl (receive bounds) v

/-! ### Images under a delta -/

private theorem foldl_erase_sub (ks : List Digest) (a b : Image)
    (h : OrderedDict.SubDict a b) :
    OrderedDict.SubDict (ks.foldl (fun m k ↦ m.erase k) a) (ks.foldl (fun m k ↦ m.erase k) b) := by
  induction ks generalizing a b with
  | nil => exact h
  | cons k ks ih => exact ih _ _ (h.erase k)

private theorem foldl_set_sub (es : List Entry) (a b : Image) (h : OrderedDict.SubDict a b) :
    OrderedDict.SubDict (es.foldl (fun m x ↦ m.set x.1 x.2) a)
      (es.foldl (fun m x ↦ m.set x.1 x.2) b) := by
  induction es generalizing a b with
  | nil => exact h
  | cons x es ih => exact ih _ _ (h.set x.1 x.2)

/-- A delta keeps inclusion of images. -/
theorem updatedImage_sub {a b : Image} (h : OrderedDict.SubDict a b) (d : InventoryDelta) :
    OrderedDict.SubDict (updatedImage a d) (updatedImage b d) :=
  foldl_set_sub d.added _ _ (foldl_erase_sub d.removed a b h)

/-- A delta keeps equality of contents. -/
theorem updatedImage_same {a b : Image} (h : OrderedDict.Same a b) (d : InventoryDelta) :
    OrderedDict.Same (updatedImage a d) (updatedImage b d) :=
  OrderedDict.Same.of_sub (updatedImage_sub (.of_same h) d) (updatedImage_sub (.of_same h.symm) d)

private theorem get?_foldl_set {es : List Entry} {a : Image} {k : Digest} {s : Span}
    (h : (es.foldl (fun m e ↦ m.set e.1 e.2) a).get? k = some s) :
    (k, s) ∈ es ∨ a.get? k = some s := by
  induction es generalizing a with
  | nil => exact .inr h
  | cons e es ih =>
    rcases ih h with hm | hs
    · exact .inl (List.mem_cons_of_mem e hm)
    · rw [OrderedDict.get?_set] at hs
      by_cases hk : k = e.1
      · rw [if_pos hk, Option.some.injEq] at hs
        rw [hk, ← hs]
        exact .inl List.mem_cons_self
      · rw [if_neg hk] at hs
        exact .inr hs

private theorem get?_foldl_erase {ks : List Digest} {a : Image} {k : Digest} {s : Span}
    (h : (ks.foldl (fun m k ↦ m.erase k) a).get? k = some s) :
    a.get? k = some s ∧ k ∉ ks := by
  induction ks generalizing a with
  | nil => exact ⟨h, List.not_mem_nil⟩
  | cons x ks ih =>
    obtain ⟨hx, hks⟩ := ih h
    rw [OrderedDict.get?_erase] at hx
    by_cases hk : k = x
    · rw [if_pos hk] at hx
      cases hx
    · rw [if_neg hk] at hx
      exact ⟨hx, List.not_mem_cons_of_ne_of_not_mem hk hks⟩

/-- An entry after a delta was added by it, or was there before and not removed. -/
theorem get?_updatedImage {m : Image} {d : InventoryDelta} {k : Digest} {s : Span}
    (h : (updatedImage m d).get? k = some s) :
    (k, s) ∈ d.added ∨ m.get? k = some s ∧ k ∉ d.removed := by
  rcases get?_foldl_set h with hm | hm
  · exact .inl hm
  · exact .inr (get?_foldl_erase hm)

/-! ### Refinement up to evicted entries -/

/-- `v'` is `v` with some entries evicted, none if `exact` holds. -/
structure Receives (exact : Prop) (v' v : RankView) : Prop where
  rest : v' = { v with image := v'.image }
  sub : OrderedDict.SubDict v'.image v.image
  eq_of_exact : exact → v'.image = v.image

namespace Receives

variable {e e₁ e₂ : Prop} {v v' w w' : RankView}

/-- No entry may be evicted. -/
theorem refl (e : Prop) (v : RankView) : Receives e v v := ⟨rfl, .refl _, fun _ ↦ rfl⟩

/-- Equal views differ by no entry. -/
theorem of_eq (e : Prop) (h : v' = v) : Receives e v' v := h ▸ refl e v'

/-- Exactness may be given up. -/
theorem mono (h : Receives e₁ v' v) (he : e₂ → e₁) : Receives e₂ v' v :=
  ⟨h.rest, h.sub, fun h₂ ↦ h.eq_of_exact (he h₂)⟩

/-- Evictions add up. -/
theorem trans (h : Receives e₁ v' v) (h' : Receives e₂ v w) : Receives (e₁ ∧ e₂) v' w := by
  refine ⟨?_, h.sub.trans h'.sub, fun he ↦ (h.eq_of_exact he.1).trans (h'.eq_of_exact he.2)⟩
  have hr := h.rest
  rw [h'.rest] at hr
  exact hr

/-- Without evictions the views are equal. -/
theorem eq (h : Receives e v' v) (he : e) : v' = v := by
  rw [h.rest, h.eq_of_exact he]

/-- Evictions before a loss of synchrony are evictions after it. -/
theorem desynchronize (h : Receives e v' v) : Receives e v'.desynchronize v.desynchronize := by
  apply of_eq
  rw [h.rest]
  rfl

private theorem reject (h : Receives e v' v) : Receives e v'.reject v.reject := by
  apply of_eq
  rw [h.rest]
  rfl

private theorem applyDelta (h : Receives e v' v) (delta : Option InventoryDelta) :
    Receives e (v'.applyDelta delta) (v.applyDelta delta) := by
  cases delta with
  | none => exact h
  | some d =>
    have hsync : v'.synchronized = v.synchronized := by rw [h.rest]
    have hseq : v'.sequence = v.sequence := by rw [h.rest]
    simp only [RankView.applyDelta, hsync, hseq]
    split
    · exact h
    · split
      · refine ⟨?_, ?_, ?_⟩
        · rw [h.rest]
          rfl
        · change OrderedDict.SubDict (updatedImage v'.image d) (updatedImage v.image d)
          exact updatedImage_sub h.sub d
        · intro he
          rw [h.eq he]
      · split
        · exact h.desynchronize
        · exact h

private theorem checkSequence (h : Receives e v' v) (cp : InventoryCheckpoint) :
    Receives e (v'.checkSequence cp) (v.checkSequence cp) := by
  have hsync : v'.synchronized = v.synchronized := by rw [h.rest]
  have hseq : v'.sequence = v.sequence := by rw [h.rest]
  simp only [RankView.checkSequence, hsync, hseq]
  split
  · exact h.desynchronize
  · exact h

/-- Evictions do not depend on what is pending. -/
theorem setPending (h : Receives e v' v) (p : Option PendingCheckpoint) :
    Receives e { v' with pending := p } { v with pending := p } := by
  refine ⟨?_, h.sub, h.eq_of_exact⟩
  rw [h.rest]

/-- Evictions before a completed checkpoint are evictions after it. -/
theorem completeCheckpoint (h : Receives e v' v) (p : PendingCheckpoint) :
    Receives e (v'.completeCheckpoint p) (v.completeCheckpoint p) := by
  have hseq : v'.sequence = v.sequence := by rw [h.rest]
  simp only [RankView.completeCheckpoint, hseq]
  apply setPending
  split
  · exact h
  · split
    · exact h.desynchronize
    · apply of_eq
      rw [h.rest]
      rfl

/-- Evictions before a page is stored are evictions after it. -/
theorem storeCheckpoint (h : Receives e v' v) (cp : InventoryCheckpoint)
    (p : PendingCheckpoint) :
    Receives e (v'.storeCheckpoint cp p) (v.storeCheckpoint cp p) := by
  unfold RankView.storeCheckpoint
  split
  · exact h.reject
  · dsimp only
    split
    · exact h.reject
    · split
      · exact (h.setPending _).completeCheckpoint _
      · exact h.setPending _

/-- Evictions before a checkpoint page are evictions after it. -/
theorem applyCheckpoint (h : Receives e v' v) (cp : InventoryCheckpoint) :
    Receives e (v'.applyCheckpoint cp) (v.applyCheckpoint cp) := by
  have hc := h.checkSequence cp
  have hp : (v'.checkSequence cp).pending = (v.checkSequence cp).pending := by rw [hc.rest]
  simp only [RankView.applyCheckpoint, hp]
  exact hc.storeCheckpoint cp _

private theorem applyBody (h : Receives e v' v) (bounds : InventoryBounds) (report : RawReport) :
    Receives e (v'.applyBody bounds report) (v.applyBody bounds report) := by
  unfold RankView.applyBody
  split
  · exact h.reject
  · exact (h.applyDelta _).applyCheckpoint _

private theorem markConflict (h : Receives e v' v) : Receives e v'.markConflict v.markConflict := by
  apply of_eq
  rw [h.rest]
  rfl

private theorem adopt (h : Receives e v' v) (identity : Identity) :
    v'.adopt identity = v.adopt identity := by
  rw [h.rest]
  rfl

private theorem disposition (h : Receives e v' v) (identity : Identity) :
    v'.disposition identity = v.disposition identity := by
  rw [h.rest]
  rfl

private theorem receiveStartup (h : Receives e v' v) (bounds : InventoryBounds)
    (generation : Option String) (epoch : PyInt) (entries : EntryStream) :
    Receives e (v'.receiveStartup bounds generation epoch entries)
      (v.receiveStartup bounds generation epoch entries) := by
  unfold RankView.receiveStartup
  split
  · exact h.markConflict
  · simp only [h.disposition, h.adopt]
    split
    · exact h
    · exact h.markConflict
    · exact h
    · exact refl _ _
    · exact refl _ _

private theorem receiveReport (h : Receives e v' v) (bounds : InventoryBounds)
    (report : RawReport) :
    Receives e (v'.receiveReport bounds report) (v.receiveReport bounds report) := by
  unfold RankView.receiveReport
  split
  · exact h.markConflict
  · simp only [h.disposition, h.adopt]
    split
    · exact h
    · exact h.markConflict
    · exact refl _ _
    · exact refl _ _
    · exact h.applyBody bounds report

/-- The receiver is monotone: evicting entries before a call only evicts entries after it. -/
theorem receive (h : Receives e v' v) (bounds : InventoryBounds) (m : Call) :
    Receives e (v'.receive bounds m) (v.receive bounds m) := by
  cases m with
  | startup rank generation epoch entries => exact h.receiveStartup bounds _ _ _
  | report report => exact h.receiveReport bounds report
  | longest candidates => exact h
  | readQuorumCount => exact h

/-- Calls keep refinement up to evictions. -/
theorem receiveAll (h : Receives e v' v) (bounds : InventoryBounds) (ranks : Finset Nat)
    (r : Nat) (calls : List Call) :
    Receives e (RankView.receiveAll bounds ranks r v' calls)
      (RankView.receiveAll bounds ranks r v calls) := by
  unfold RankView.receiveAll
  generalize calls.filter _ = l
  induction l generalizing v' v with
  | nil => exact h
  | cons m l ih => exact ih (h.receive bounds m)

end Receives

/-- Calls are received one after the other. -/
theorem receiveAll_append (bounds : InventoryBounds) (ranks : Finset Nat) (r : Nat)
    (v : RankView) (a b : List Call) :
    receiveAll bounds ranks r v (a ++ b) =
      receiveAll bounds ranks r (receiveAll bounds ranks r v a) b := by
  simp [receiveAll, List.filter_append, List.foldl_append]

end RankView
end SpoolCache.Quorum

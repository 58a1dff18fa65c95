import SpoolCache.Quorum.Index
import SpoolCache.Quorum.Tracking

/-!
# The catalog's representation in every reachable state

Clauses about single ranks come from the receivers (`Tracks`), clauses about the shared index
from `SharedInv`; together they are the representation invariant of `QuorumCatalog`, and they
say what `has_quorum` means.
-/

namespace SpoolCache.Quorum.QuorumCatalog

open SpoolCache.Base
open RankView (Tracks Carries Admits Matches Receives freshPending)

/-- Representation invariant of `QuorumCatalog`. -/
structure RepInv (c : QuorumCatalog) : Prop where
  index : ∀ entryId r, r ∈ c.holders entryId ↔ entryId ∈ (c.rankEntries r).keys
  nonempty : ∀ entryId ranks, c.entryRanks.get? entryId = some ranks → ranks ≠ ∅
  recency : ∀ entryId, entryId ∈ c.recency.keys ↔ entryId ∈ c.entryRanks.keys
  withdrawn : ∀ r ∈ c.desynchronized, c.rankEntries r = .empty
  bounded : c.entryRanks.size * c.bounds.entryBytes ≤ c.bounds.maxBytes
  pending : ∀ r p, c.pending r = some p →
    p.entryCount = p.pages.total List.length ∧ p.entryCount ≤ p.heldCount ∧
      p.heldCount ≤ c.bounds.inventoryCapacity
  cached : ∀ n, c.quorumCount = some n → n = c.countQuorum

/-! ### Pending checkpoints -/

/-- The counters of a pending checkpoint are right and bounded. -/
def PendingOk (bounds : InventoryBounds) (p : PendingCheckpoint) : Prop :=
  p.entryCount = p.pages.total List.length ∧ p.entryCount ≤ p.heldCount ∧
    p.heldCount ≤ bounds.inventoryCapacity

/-- A stored page keeps the counter of entries right. -/
theorem entryCount_storePage {p : PendingCheckpoint} (cp : InventoryCheckpoint)
    (h : p.entryCount = p.pages.total List.length) :
    (storePage p cp).entryCount = (storePage p cp).pages.total List.length := by
  have ht := OrderedDict.total_set List.length p.pages cp.index cp.entries
  have hl : ((p.pages.get? cp.index).getD []).length =
      ((p.pages.get? cp.index).map List.length).getD 0 := by
    cases p.pages.get? cp.index <;> rfl
  have hle : ((p.pages.get? cp.index).map List.length).getD 0 ≤ p.pages.total List.length := by
    cases hg : p.pages.get? cp.index with
    | none => exact Nat.zero_le _
    | some page =>
      rw [OrderedDict.total_eq_add_erase List.length p.pages hg]
      exact Nat.le_add_right _ _
  change p.entryCount - ((p.pages.get? cp.index).getD []).length + cp.entries.length =
    OrderedDict.total List.length (p.pages.set cp.index cp.entries)
  rw [hl]
  omega

/-- Every call keeps the counters of what is pending right. -/
theorem admits_pendingOk (bounds : InventoryBounds) (m : Call) :
    Admits (fun _ _ _ ↦ True) (fun _ ↦ PendingOk bounds) bounds m := by
  refine ⟨fun _ _ _ _ _ _ _ _ _ ↦ trivial, ?_⟩
  intro raw i report _ _ hv
  refine ⟨fun _ _ _ _ _ ↦ trivial, ?_⟩
  intro p hp hm _ hle
  have hheld := (validateCheckpoint_ok (validateInventoryReport_ok hv).1).1
  rw [← hm.heldCount] at hheld
  have hcount : p.entryCount = p.pages.total List.length := by
    rcases hp with rfl | hp
    · rfl
    · exact hp.1
  exact ⟨entryCount_storePage _ hcount, hle, hheld⟩

/-! ### Reachable states -/

private theorem sharedInv_fresh (bounds : InventoryBounds) (ranks : Finset Nat) :
    (fresh bounds ranks).SharedInv := by
  refine ⟨⟨⟨?_, ?_⟩, ?_, ?_⟩, ?_, ?_⟩
  · intro e rs h
    cases h
  · intro e
    exact Iff.rfl
  · intro e r
    change r ∈ (∅ : Finset Nat) ↔ e ∈ ([] : List Digest)
    simp
  · intro e r h
    cases h
  · change bounds.overBound 0 = false
    rw [InventoryBounds.not_overBound_iff]
    exact Nat.zero_le _
  · intro n h
    cases h

private theorem sharedInv_run {c : QuorumCatalog} (h : c.SharedInv) (calls : List Call) :
    (c.run calls).SharedInv := by
  induction calls generalizing c with
  | nil => exact h
  | cons m calls ih => exact ih (h.call m)

/-- A fresh catalog shows nothing and has nothing pending for an expected rank. -/
theorem tracks_fresh {image : Identity → Nat → Image → Prop}
    {page : Identity → PendingCheckpoint → Prop} (bounds : InventoryBounds) (ranks : Finset Nat)
    {r : Nat} (hr : r ∈ ranks) : Tracks image page ((fresh bounds ranks).view r) := by
  refine ⟨fun _ ↦ rfl, ?_, ?_⟩
  · intro hs
    simp [view, fresh, hr] at hs
  · intro p hp
    cases hp

/-- Predicates that every call about a rank admits hold of the rank in every later state. -/
theorem tracks_run {image : Identity → Nat → Image → Prop}
    {page : Identity → PendingCheckpoint → Prop} {c : QuorumCatalog} {r : Nat}
    (h : Tracks image page (c.view r)) {calls : List Call}
    (hsub : ∀ i n a b, OrderedDict.SubDict a b → image i n b → image i n a)
    (hcomplete : ∀ i p, page i p → RankView.Complete p →
      image i p.sequence (OrderedDict.ofItems (flattenedPages p)))
    (hm : ∀ m ∈ calls, m.rank? c.expectedRanks = some r → Admits image page c.bounds m) :
    Tracks image page ((c.run calls).view r) :=
  (h.receiveAll hcomplete hm).of_receives (view_run c calls r) hsub

/-- A rank outside the topology is never touched. -/
theorem view_run_of_unexpected (c : QuorumCatalog) (calls : List Call) {r : Nat}
    (hr : r ∉ c.expectedRanks) :
    Receives ((c.run calls).boundEvictions = c.boundEvictions) ((c.run calls).view r)
      (c.view r) := by
  have hv := view_run c calls r
  have hnil : calls.filter (fun m ↦ decide (m.rank? c.expectedRanks = some r)) = [] := by
    apply List.filter_eq_nil_iff.mpr
    intro m _ hm
    exact hr (Call.mem_of_rank? (by simpa using hm))
  rw [RankView.receiveAll, hnil] at hv
  exact hv

/-- A catalog that is created starts empty, with the ranks below some number. -/
theorem expectedRanks_of_create {ranks : List PyInt} {bounds : InventoryBounds}
    {c : QuorumCatalog} (h : create ranks bounds = .ok c) :
    ∃ n, 0 < n ∧ c = fresh bounds (Finset.range n) := by
  unfold create expectedRanksOf at h
  dsimp only at h
  split at h
  · next hr =>
    cases h
    exact ⟨_, List.length_pos_iff.mpr hr.1, rfl⟩
  · cases h

/-- Every call list keeps the invariant of the representation. -/
theorem repInv_run_fresh (bounds : InventoryBounds) (ranks : Finset Nat) (calls : List Call) :
    ((fresh bounds ranks).run calls).RepInv := by
  have hs := sharedInv_run (sharedInv_fresh bounds ranks) calls
  obtain ⟨hb, -, -⟩ := frame_run (fresh bounds ranks) calls
  have ht : ∀ r ∈ ranks, Tracks (fun _ _ _ ↦ True) (fun _ ↦ PendingOk bounds)
      (((fresh bounds ranks).run calls).view r) := by
    intro r hr
    exact tracks_run (tracks_fresh bounds ranks hr) (fun _ _ _ _ _ h ↦ h)
      (fun _ _ _ _ ↦ trivial) (fun m _ _ ↦ admits_pendingOk bounds m)
  refine ⟨hs.index, hs.nonempty, hs.recency, ?_, ?_, ?_, hs.cached⟩
  · intro r hr
    by_cases hx : r ∈ ranks
    · exact (ht r hx).withdrawn (by simpa [view] using hr)
    · exact OrderedDict.eq_empty_of_sub (view_run_of_unexpected _ calls hx).sub
  · have hle := (InventoryBounds.not_overBound_iff _ _).mp hs.bounded
    exact (Nat.mul_le_mul_right _ hle).trans (Nat.div_mul_le_self _ _)
  · intro r p hp
    by_cases hx : r ∈ ranks
    · obtain ⟨i, -, hok⟩ := (ht r hx).stored p hp
      rw [hb]
      exact hok
    · have hv := (view_run_of_unexpected (fresh bounds ranks) calls hx).rest
      have hn : (((fresh bounds ranks).run calls).view r).pending = none := by
        rw [hv]
        rfl
      cases hn.symm.trans hp

/-! ### What quorum means -/

/-- Quorum for a span: every expected rank is synchronized and maps the entry to the span. -/
def Agreed (c : QuorumCatalog) (entryId : Digest) (span : Nat) : Prop :=
  ∀ r ∈ c.expectedRanks, r ∉ c.desynchronized ∧
    ((c.rankEntries r).get? entryId).map Subtype.val = some span

/-- A quorum means that every expected rank tells of the entry with that span. -/
theorem agreed_of_hasQuorum {c : QuorumCatalog} (h : c.RepInv) {e : Digest} {s : Nat}
    (hq : c.hasQuorum e (some s) = true) : c.Agreed e s := by
  unfold hasQuorum at hq
  dsimp only at hq
  split at hq
  · cases hq
  · next hr =>
    split at hq
    · cases hq
    · next hc =>
      rw [not_not] at hr hc
      rw [decide_eq_true_iff] at hq
      obtain ⟨only, honly, hs⟩ := hq
      obtain ⟨single, hsingle⟩ := Finset.card_eq_one.mp hc
      intro r hexp
      have hmem : (c.rankEntries r).get? e ∈
          ((c.entryRanks.get? e).getD ∅).image fun r ↦ (c.rankEntries r).get? e :=
        Finset.mem_image_of_mem _ (hr ▸ hexp)
      rw [hsingle, Finset.mem_singleton] at hmem honly
      have hget : ((c.rankEntries r).get? e).map Subtype.val = some s := by
        rw [hmem, ← honly]
        exact hs
      refine ⟨?_, hget⟩
      intro hd
      rw [h.withdrawn r hd] at hget
      cases hget

private theorem hasQuorum_of_agreed {c : QuorumCatalog} (h : c.RepInv) {e : Digest} {s : Nat}
    (hexp : ∀ r ∈ c.holders e, r ∈ c.expectedRanks) (hne : c.expectedRanks.Nonempty)
    (hq : c.Agreed e s) : c.hasQuorum e (some s) = true := by
  obtain ⟨r₀, hr₀⟩ := hne
  have hhold : (c.entryRanks.get? e).getD ∅ = c.expectedRanks := by
    apply Finset.Subset.antisymm
    · exact hexp
    · intro r hr
      apply (h.index e r).mpr
      obtain ⟨v, hv, -⟩ := Option.map_eq_some_iff.mp (hq r hr).2
      exact ((c.rankEntries r).mem_keys_iff e).mpr ⟨v, hv⟩
  have hsame : ∀ r ∈ c.expectedRanks, (c.rankEntries r).get? e = (c.rankEntries r₀).get? e := by
    intro r hr
    apply Option.map_injective Subtype.val_injective
    rw [(hq r hr).2, (hq r₀ hr₀).2]
  have himage : (c.expectedRanks.image fun r ↦ (c.rankEntries r).get? e) =
      {(c.rankEntries r₀).get? e} := by
    ext v
    rw [Finset.mem_image, Finset.mem_singleton]
    constructor
    · intro hv
      obtain ⟨r, hr, rfl⟩ := hv
      exact hsame r hr
    · intro hv
      exact ⟨r₀, hr₀, hv.symm⟩
  unfold hasQuorum
  simp only [hhold, himage, Finset.card_singleton, ne_eq, not_true_eq_false, if_false,
    Finset.mem_singleton, exists_eq_left, decide_eq_true_iff]
  exact (hq r₀ hr₀).2

/-- In every state reachable from the constructor by any calls, also calls that raise, the
representation invariant holds, and `has_quorum(e, s)` is true iff every expected rank is
synchronized and maps `e` to `s`. -/
theorem repInv_and_hasQuorum_iff (ranks : List PyInt) (bounds : InventoryBounds)
    (c : QuorumCatalog) (hc : create ranks bounds = .ok c) (calls : List Call) :
    (c.run calls).RepInv ∧ ∀ entryId span,
      (c.run calls).hasQuorum entryId (some span) = true ↔ (c.run calls).Agreed entryId span := by
  obtain ⟨n, hn, rfl⟩ := expectedRanks_of_create hc
  have hrep := repInv_run_fresh bounds (Finset.range n) calls
  have hshared := sharedInv_run (sharedInv_fresh bounds (Finset.range n)) calls
  refine ⟨hrep, fun e s ↦ ⟨agreed_of_hasQuorum hrep, hasQuorum_of_agreed hrep ?_ ?_⟩⟩
  · exact hshared.expected e
  · rw [(frame_run (fresh bounds (Finset.range n)) calls).2.1]
    exact Finset.nonempty_range_iff.mpr (by omega)

/-- Two ranks that start with the same entry agree on it, and the catalog says so. -/
theorem repInv_and_hasQuorum_two_ranks :
    let bounds : InventoryBounds := ⟨1, 2, 4, by decide, by decide, by decide⟩
    let entries : EntryStream := ⟨[rawEntry (.ofNat 5, ⟨256, by decide⟩)], none⟩
    let c := (fresh bounds (Finset.range 2)).run
      [.startup (some 0) (some "g") (some 1) entries, .readQuorumCount,
        .startup (some 1) (some "h") (some 1) entries, .longest [(256, .ofNat 5)]]
    c.RepInv ∧ c.hasQuorum (.ofNat 5) (some 256) = true ∧ c.Agreed (.ofNat 5) 256 := by
  intro bounds entries c
  have h := repInv_and_hasQuorum_iff [some 1, some 0] bounds (fresh bounds (Finset.range 2)) rfl
    [.startup (some 0) (some "g") (some 1) entries, .readQuorumCount,
      .startup (some 1) (some "h") (some 1) entries, .longest [(256, .ofNat 5)]]
  have hq : c.hasQuorum (.ofNat 5) (some 256) = true := by decide +kernel
  exact ⟨h.1, hq, (h.2 _ _).mp hq⟩

end SpoolCache.Quorum.QuorumCatalog

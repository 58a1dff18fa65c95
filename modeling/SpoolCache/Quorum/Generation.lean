import SpoolCache.Quorum.Representation

/-!
# Process generations

A rank's image belongs to exactly one process identity, the adopted one. Epochs of adopted
identities never decrease, an image holds only entries that messages with the adopted identity
carried, and an identity that cannot be ordered withdraws the rank until a strictly greater
epoch arrives (`quorum.py:355–514`).
-/

namespace SpoolCache.Quorum

open SpoolCache.Base
open QuorumCatalog (Call Disposition flattenedPages storePage updatedImage startupEntries
  mem_items_of_startupEntries)

/-! ### What a message carries -/

namespace QuorumCatalog

/-- The process identity a message is from, if it is well formed. -/
def Call.identity? : Call → Option Identity
  | .startup _ generation epoch _ => (validateGenerationIdentity generation epoch).toOption
  | .report raw => (validateGenerationIdentity raw.generation raw.generationEpoch).toOption
  | .longest _ => none
  | .readQuorumCount => none

/-- The entry is in the startup image, the checkpoint page or the additions of a message. -/
def Call.Contains (entry : Entry) : Call → Prop
  | .startup _ _ _ entries => rawEntry entry ∈ entries.items
  | .report raw =>
    (∃ cp entries, raw.checkpoint = some cp ∧ cp.entries = some entries ∧
      rawEntry entry ∈ entries) ∨
    ∃ d entries, raw.delta = .delta d ∧ d.added = some entries ∧ rawEntry entry ∈ entries
  | .longest _ => False
  | .readQuorumCount => False

/-- A message of the rank's process `identity` carried the entry. -/
def Carried (calls : List Call) (ranks : Finset Nat) (r : Nat) (identity : Identity)
    (entry : Entry) : Prop :=
  ∃ m ∈ calls, m.rank? ranks = some r ∧ m.identity? = some identity ∧ m.Contains entry

end QuorumCatalog

namespace RankView

open QuorumCatalog (Carried)

/-! ### Provenance -/

section Provenance

variable (calls : List Call) (ranks : Finset Nat) (r : Nat)

/-- Every entry of the image was carried for this identity. -/
def CarriedImage (i : Identity) (_ : Nat) (m : Image) : Prop :=
  ∀ k s, m.get? k = some s → Carried calls ranks r i (k, s)

/-- Every entry of a stored page was carried for this identity. -/
def CarriedPages (i : Identity) (p : PendingCheckpoint) : Prop :=
  ∀ index page, p.pages.get? index = some page → ∀ e ∈ page, Carried calls ranks r i e

private theorem carriedImage_complete {i : Identity} {p : PendingCheckpoint}
    (h : CarriedPages calls ranks r i p) :
    CarriedImage calls ranks r i p.sequence (OrderedDict.ofItems (flattenedPages p)) := by
  intro k s hk
  have hm := OrderedDict.mem_of_mem_ofItems _ ((OrderedDict.get?_eq_some_iff _ k s).mp hk)
  obtain ⟨index, -, hi⟩ := List.mem_flatMap.mp hm
  cases hp : p.pages.get? index with
  | none =>
    rw [hp] at hi
    cases hi
  | some page =>
    rw [hp] at hi
    exact h index page hp (k, s) hi

private theorem admits_carried {bounds : InventoryBounds} {m : Call} (hm : m ∈ calls)
    (hr : m.rank? ranks = some r) :
    Admits (CarriedImage calls ranks r) (CarriedPages calls ranks r) bounds m := by
  refine ⟨?_, ?_⟩
  · rintro rank generation epoch entries i start rfl hi hs k s hk
    refine ⟨_, hm, hr, by simp [Call.identity?, hi, Except.toOption], ?_⟩
    exact mem_items_of_startupEntries hs hk
  · rintro raw i report rfl hi hv
    obtain ⟨hc, hd⟩ := validateInventoryReport_ok hv
    have hid : (Call.report raw).identity? = some i := by
      simp [Call.identity?, hi, Except.toOption]
    refine ⟨?_, ?_⟩
    · intro d hdelta image _ himage k s hk
      rcases get?_updatedImage hk with hadd | hold
      · rw [hdelta] at hd
        obtain ⟨rd, hraw, hadded⟩ := validateDelta_ok hd
        exact ⟨_, hm, hr, hid, .inr ⟨rd, _, hraw, hadded, List.mem_map_of_mem hadd⟩⟩
      · exact himage k s hold.1
    · intro p hp _ _ _ index page hpage e he
      obtain ⟨-, rc, hraw, hentries⟩ := validateCheckpoint_ok hc
      have hnew : ∀ e ∈ report.checkpoint.entries, Carried calls ranks r i e := by
        intro e he
        exact ⟨_, hm, hr, hid, .inl ⟨rc, _, hraw, hentries, List.mem_map_of_mem he⟩⟩
      change (p.pages.set _ _).get? index = some page at hpage
      rw [OrderedDict.get?_set] at hpage
      split at hpage
      · cases hpage
        exact hnew e he
      · rcases hp with rfl | hp
        · cases hpage
        · exact hp index page hpage e he

end Provenance

/-! ### Order of epochs -/

private theorem identity_applyCheckpoint (v : RankView) (cp : InventoryCheckpoint) :
    (v.applyCheckpoint cp).identity = v.identity := by
  rw [applyCheckpoint, ← Tracks.identity_checkSequence v cp]
  generalize v.checkSequence cp = w
  unfold storeCheckpoint
  split
  · rfl
  · dsimp only
    split
    · rfl
    · split
      · unfold completeCheckpoint
        dsimp only
        split
        · rfl
        · split <;> rfl
      · rfl

/-- The body of a report does not change the identity. -/
theorem identity_applyBody (bounds : InventoryBounds) (v : RankView) (raw : RawReport) :
    (v.applyBody bounds raw).identity = v.identity := by
  unfold applyBody
  split
  · rfl
  · next valid _ =>
    exact (identity_applyCheckpoint _ _).trans (Tracks.identity_applyDelta v valid.delta)

/-- A startup image does not change the identity. -/
theorem identity_installStartup (bounds : InventoryBounds) (v : RankView)
    (entries : EntryStream) : (v.installStartup bounds entries).identity = v.identity := by
  unfold installStartup
  split <;> rfl

/-- A newer identity has a greater epoch. -/
theorem epoch_lt_of_newer {v : RankView} {i j : Identity} (h : v.disposition j = .newer)
    (hi : v.identity = some i) : i.2 < j.2 := by
  unfold disposition at h
  rw [hi] at h
  dsimp only at h
  split at h
  · split at h <;> cases h
  · split at h
    · next hlt => exact hlt
    · split at h <;> cases h

/-- The adopted identity is not stale. -/
theorem not_stale {v : RankView} {i : Identity} (hi : v.identity = some i) :
    v.disposition i ≠ .stale := by
  unfold disposition
  rw [hi]
  dsimp only
  rw [if_neg (lt_irrefl _), if_neg (lt_irrefl _)]
  split <;> simp

private theorem not_initial {v : RankView} {i j : Identity} (hi : v.identity = some i) :
    v.disposition j ≠ .initial := by
  unfold disposition
  rw [hi]
  dsimp only
  split
  · split <;> simp
  · split
    · simp
    · split <;> simp

/-- A call replaces the adopted identity only by one with a greater epoch. -/
theorem identity_receive (bounds : InventoryBounds) {v : RankView} {i : Identity}
    (hi : v.identity = some i) (m : Call) :
    (v.receive bounds m).identity = some i ∨
      ∃ j, m.identity? = some j ∧ i.2 < j.2 ∧ (v.receive bounds m).identity = some j := by
  cases m with
  | startup rank generation epoch entries =>
    simp only [receive, receiveStartup, Call.identity?]
    cases validateGenerationIdentity generation epoch with
    | error e => exact .inl hi
    | ok j =>
      dsimp only
      cases hd : v.disposition j with
      | stale => exact .inl hi
      | conflict => exact .inl hi
      | current => exact .inl hi
      | initial => exact absurd hd (not_initial hi)
      | newer =>
        exact .inr ⟨j, rfl, epoch_lt_of_newer hd hi, identity_installStartup _ _ _⟩
  | report raw =>
    simp only [receive, receiveReport, Call.identity?]
    cases validateGenerationIdentity raw.generation raw.generationEpoch with
    | error e => exact .inl hi
    | ok j =>
      dsimp only
      cases hd : v.disposition j with
      | stale => exact .inl hi
      | conflict => exact .inl hi
      | initial => exact absurd hd (not_initial hi)
      | newer => exact .inr ⟨j, rfl, epoch_lt_of_newer hd hi, identity_applyBody _ _ _⟩
      | current => exact .inl ((identity_applyBody _ _ _).trans hi)
  | longest candidates => exact .inl hi
  | readQuorumCount => exact .inl hi

private theorem epoch_le_receiveAll (bounds : InventoryBounds) (ranks : Finset Nat) (r : Nat)
    {v : RankView} {i : Identity} (hi : v.identity = some i) (calls : List Call) :
    ∃ j, (receiveAll bounds ranks r v calls).identity = some j ∧ i.2 ≤ j.2 := by
  unfold receiveAll
  generalize calls.filter _ = l
  induction l generalizing v i with
  | nil => exact ⟨i, hi, le_rfl⟩
  | cons m l ih =>
    rcases identity_receive bounds hi m with hm | ⟨j, -, hlt, hm⟩
    · exact ih hm
    · obtain ⟨k, hk, hle⟩ := ih hm
      exact ⟨k, hk, by omega⟩

/-! ### Conflicts -/

/-- The rank is withdrawn because its process could not be ordered. -/
structure Quarantined (i : Identity) (v : RankView) : Prop where
  identity : v.identity = some i
  conflict : v.conflict = true
  desynchronized : v.synchronized = false
  image : v.image = .empty

private theorem quarantined_markConflict {v : RankView} {i : Identity} (hi : v.identity = some i) :
    Quarantined i v.markConflict := ⟨hi, rfl, rfl, rfl⟩

/-- A message that cannot be ordered against the adopted identity. -/
def Unorderable (v : RankView) (m : Call) : Prop :=
  ∀ j, m.identity? = some j → v.disposition j = .conflict

private theorem receive_eq_markConflict (bounds : InventoryBounds) {ranks : Finset Nat} {r : Nat}
    {v : RankView} {m : Call} (hr : m.rank? ranks = some r) (hm : v.Unorderable m) :
    v.receive bounds m = v.markConflict := by
  cases m with
  | startup rank generation epoch entries =>
    simp only [receive, receiveStartup]
    cases hv : validateGenerationIdentity generation epoch with
    | error e => rfl
    | ok j =>
      have hd := hm j (by simp [Call.identity?, hv, Except.toOption])
      simp only [hd]
  | report raw =>
    simp only [receive, receiveReport]
    cases hv : validateGenerationIdentity raw.generation raw.generationEpoch with
    | error e => rfl
    | ok j =>
      have hd := hm j (by simp [Call.identity?, hv, Except.toOption])
      simp only [hd]
  | longest candidates => cases hr
  | readQuorumCount => cases hr

/-- Under a conflict, an identity without a greater epoch is stale or a conflict again. -/
theorem disposition_of_quarantined {v : RankView} {i j : Identity} (h : Quarantined i v)
    (hle : j.2 ≤ i.2) : v.disposition j = .stale ∨ v.disposition j = .conflict := by
  unfold disposition
  rw [h.identity, h.conflict]
  dsimp only
  split
  · split
    · exact .inl rfl
    · exact .inr rfl
  · rw [if_neg (by omega), if_pos (.inr rfl)]
    exact .inr rfl

private theorem Quarantined.receive {v : RankView} {i : Identity} (h : Quarantined i v)
    (bounds : InventoryBounds) {ranks : Finset Nat} {r : Nat} {m : Call}
    (hr : m.rank? ranks = some r) (hm : ∀ j, m.identity? = some j → j.2 ≤ i.2) :
    Quarantined i (v.receive bounds m) := by
  by_cases hu : v.Unorderable m
  · rw [receive_eq_markConflict bounds hr hu]
    exact quarantined_markConflict h.identity
  · have hstale : ∃ j, m.identity? = some j ∧ v.disposition j = .stale := by
      unfold Unorderable at hu
      rw [not_forall] at hu
      obtain ⟨j, hj⟩ := hu
      rw [Classical.not_imp] at hj
      rcases disposition_of_quarantined h (hm j hj.1) with hs | hc
      · exact ⟨j, hj.1, hs⟩
      · exact absurd hc hj.2
    obtain ⟨j, hj, hs⟩ := hstale
    have hv : v.receive bounds m = v := by
      cases m with
      | startup rank generation epoch entries =>
        simp only [Call.identity?] at hj
        simp only [RankView.receive, receiveStartup]
        cases hv : validateGenerationIdentity generation epoch with
        | error e =>
          rw [hv] at hj
          cases hj
        | ok j' =>
          rw [hv] at hj
          cases hj
          simp only [hs]
      | report raw =>
        simp only [Call.identity?] at hj
        simp only [RankView.receive, receiveReport]
        cases hv : validateGenerationIdentity raw.generation raw.generationEpoch with
        | error e =>
          rw [hv] at hj
          cases hj
        | ok j' =>
          rw [hv] at hj
          cases hj
          simp only [hs]
      | longest candidates => cases hr
      | readQuorumCount => cases hr
    rw [hv]
    exact h

private theorem Quarantined.receiveAll {v : RankView} {i : Identity} (h : Quarantined i v)
    (bounds : InventoryBounds) {ranks : Finset Nat} {r : Nat} {calls : List Call}
    (hm : ∀ m ∈ calls, m.rank? ranks = some r → ∀ j, m.identity? = some j → j.2 ≤ i.2) :
    Quarantined i (receiveAll bounds ranks r v calls) := by
  induction calls generalizing v with
  | nil => exact h
  | cons m calls ih =>
    have htail := fun x hx ↦ hm x (List.mem_cons_of_mem m hx)
    by_cases hr : m.rank? ranks = some r
    · have hstep := h.receive bounds hr (hm m List.mem_cons_self hr)
      simpa [RankView.receiveAll, hr] using ih hstep htail
    · simpa [RankView.receiveAll, hr] using ih h htail

end RankView

namespace QuorumCatalog

open RankView (Quarantined CarriedImage CarriedPages)

private theorem epoch_le_run (c : QuorumCatalog) (r : Nat) {i : Identity}
    (hi : c.generation r = some i) (calls : List Call) :
    ∃ j, (c.run calls).generation r = some j ∧ i.2 ≤ j.2 := by
  have hv := view_run c calls r
  obtain ⟨j, hj, hle⟩ := RankView.epoch_le_receiveAll c.bounds c.expectedRanks r
    (v := c.view r) hi calls
  refine ⟨j, ?_, hle⟩
  have hid : ((c.run calls).view r).identity = some j := by
    rw [hv.rest]
    exact hj
  exact hid

private theorem carried_run_fresh (bounds : InventoryBounds) {ranks : Finset Nat} {r : Nat}
    (hr : r ∈ ranks) (calls : List Call) {k : Digest} {s : Span}
    (hk : (((fresh bounds ranks).run calls).rankEntries r).get? k = some s) :
    ∃ i, ((fresh bounds ranks).run calls).generation r = some i ∧
      Carried calls ranks r i (k, s) := by
  have ht : RankView.Tracks (CarriedImage calls ranks r) (CarriedPages calls ranks r)
      (((fresh bounds ranks).run calls).view r) := by
    refine tracks_run (tracks_fresh bounds ranks hr) ?_ ?_ ?_
    · intro i n a b hsub hb k s hk
      exact hb k s (hsub k s hk)
    · intro i p hp _
      exact RankView.carriedImage_complete calls ranks r hp
    · intro m hm hmr
      exact RankView.admits_carried calls ranks r hm hmr
  cases hs : (((fresh bounds ranks).run calls).view r).synchronized with
  | false =>
    have he : ((fresh bounds ranks).run calls).rankEntries r = .empty := ht.withdrawn hs
    rw [he] at hk
    cases hk
  | true =>
    obtain ⟨i, hi, himage⟩ := ht.shown hs
    exact ⟨i, hi, himage k s hk⟩

/-- A message that cannot be ordered against the adopted identity withdraws the rank, and it
stays withdrawn through any messages without a greater epoch. -/
theorem withdrawn_after_conflict (c : QuorumCatalog) {r : Nat} {i : Identity}
    (hi : c.generation r = some i) {m : Call} (hr : m.rank? c.expectedRanks = some r)
    (hm : ∀ j, m.identity? = some j → c.generationDisposition r j = .conflict)
    {calls : List Call} (hcalls : ∀ m ∈ calls, m.rank? c.expectedRanks = some r →
      ∀ j, m.identity? = some j → j.2 ≤ i.2) :
    (c.run (m :: calls)).rankEntries r = .empty ∧ r ∈ (c.run (m :: calls)).desynchronized := by
  have hv := view_run c (m :: calls) r
  have hu : (c.view r).Unorderable m := fun j hj ↦ (disposition_view c r j).trans (hm j hj)
  have hq : Quarantined i (RankView.receiveAll c.bounds c.expectedRanks r (c.view r)
      (m :: calls)) := by
    have h₁ : Quarantined i ((c.view r).receive c.bounds m) := by
      rw [RankView.receive_eq_markConflict c.bounds hr hu]
      exact RankView.quarantined_markConflict hi
    simpa [RankView.receiveAll, hr] using h₁.receiveAll c.bounds hcalls
  have himage := hv.sub
  rw [hq.image] at himage
  refine ⟨OrderedDict.eq_empty_of_sub himage, ?_⟩
  have hs : ((c.run (m :: calls)).view r).synchronized = false := by
    rw [hv.rest]
    exact hq.desynchronized
  exact (desynchronized_view _ r).mp hs

/-- Generation ordering: adopted epochs never decrease; every visible entry was carried by a
message with exactly the adopted identity; and after a message that is malformed or conflicts
with the adopted identity the rank shows nothing until a strictly greater epoch arrives. -/
theorem generation_ordering (ranks : List PyInt) (bounds : InventoryBounds) (c : QuorumCatalog)
    (hc : create ranks bounds = .ok c) (r : Nat) (hr : r ∈ c.expectedRanks) :
    (∀ before after i, (c.run before).generation r = some i →
      ∃ j, (c.run (before ++ after)).generation r = some j ∧ i.2 ≤ j.2) ∧
    (∀ calls k s, ((c.run calls).rankEntries r).get? k = some s →
      ∃ i, (c.run calls).generation r = some i ∧
        Carried calls c.expectedRanks r i (k, s)) ∧
    (∀ before m after i, (c.run before).generation r = some i →
      m.rank? c.expectedRanks = some r →
      (∀ j, m.identity? = some j → (c.run before).generationDisposition r j = .conflict) →
      (∀ m' ∈ after, m'.rank? c.expectedRanks = some r →
        ∀ j, m'.identity? = some j → j.2 ≤ i.2) →
      (c.run (before ++ m :: after)).rankEntries r = .empty ∧
        r ∈ (c.run (before ++ m :: after)).desynchronized) := by
  refine ⟨?_, ?_, ?_⟩
  · intro before after i hi
    rw [run_append]
    exact epoch_le_run _ r hi after
  · intro calls k s hk
    obtain ⟨n, -, rfl⟩ := expectedRanks_of_create hc
    exact carried_run_fresh bounds hr calls hk
  · intro before m after i hi hm hconflict hafter
    have he := (frame_run c before).2.1
    rw [run_append]
    apply withdrawn_after_conflict (c.run before) hi
    · rw [he]
      exact hm
    · exact hconflict
    · rw [he]
      exact hafter

/-- A process of an unknown lower epoch withdraws the rank that adopted epoch 4, a repeated
startup of the adopted process does not bring it back, and epoch 5 does. -/
theorem generation_ordering_lower_epoch :
    let bounds : InventoryBounds := ⟨1, 2, 4, by decide, by decide, by decide⟩
    let entries : EntryStream := ⟨[rawEntry (.ofNat 5, ⟨256, by decide⟩)], none⟩
    let c := fresh bounds (Finset.range 1)
    let first : Call := .startup (some 0) (some "g") (some 4) entries
    let lower : Call := .startup (some 0) (some "h") (some 3) entries
    let newer : Call := .startup (some 0) (some "k") (some 5) entries
    ((c.run [first]).rankEntries 0).size = 1 ∧
      (c.run [first, lower, first]).rankEntries 0 = .empty ∧
      0 ∈ (c.run [first, lower, first]).desynchronized ∧
      (∃ i, (c.run [first, lower, first, newer]).generation 0 = some i ∧
        Carried [first, lower, first, newer] c.expectedRanks 0 i (.ofNat 5, ⟨256, by decide⟩)) ∧
      ∃ j, (c.run [first, lower, first, newer]).generation 0 = some j ∧ 4 ≤ j.2 := by
  intro bounds entries c first lower newer
  obtain ⟨hmono, hcarried, hconflict⟩ :=
    generation_ordering [some 0] bounds c rfl 0 (by decide)
  have hw := hconflict [first] lower [first] ("g", 4) (by decide +kernel) (by decide)
    (by decide +kernel) (by decide +kernel)
  refine ⟨by decide +kernel, hw.1, hw.2, ?_, ?_⟩
  · exact hcarried [first, lower, first, newer] _ _ (by decide +kernel)
  · exact hmono [first] [lower, first, newer] ("g", 4) (by decide +kernel)

end QuorumCatalog
end SpoolCache.Quorum

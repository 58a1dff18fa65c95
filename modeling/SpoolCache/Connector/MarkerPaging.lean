import SpoolCache.Base.CyclicPaging
import SpoolCache.Base.Except
import SpoolCache.Connector.Worker
import SpoolCache.Store.Recency

/-!
# Paging of withdrawal markers

`rank_store.py:674–757`. Every stats call of a worker withdraws all marked keys and acknowledges one
bounded page of them; the cursor of the page is kept for the next call. Acknowledging removes the
markers of keys without a file, so the set shrinks while it is paged.
-/

namespace SpoolCache.Connector

open SpoolCache.Base SpoolCache.Quorum SpoolCache.Store

/-- `reporter.remove`, with a log of its calls. -/
def loggedRemove (out : InventoryReporter × List Digest) (key : Digest) :
    InventoryReporter × List Digest :=
  (out.1.remove key, out.2 ++ [key])

/-- One batch with the acknowledgement of its page; `withdrawn` are the calls of `withdraw`. -/
structure MarkerRound where
  start : RankState
  withdrawn : List Digest
  page : List Digest
  cursor : Option Digest
  finish : RankState

/-- A batch, then the acknowledgement of its page, as in `connector.py:1137–1149`. -/
def markerRound (limit : Nat) (s : RankState) (after : Option Digest) :
    Except PyError MarkerRound := do
  let ((reporter, withdrawn), page, cursor) ←
    inventoryWithdrawalMarkerBatch loggedRemove (s.reporter, []) s.markers.keys limit after
  pure {
    start := s
    withdrawn
    page
    cursor
    finish := acknowledgeAbsent { s with reporter := reporter } page }

/-- Consecutive rounds, each with the cursor of the one before. -/
def markerRounds (limit : Nat) : Nat → RankState → Option Digest → Except PyError (List MarkerRound)
  | 0, _, _ => pure []
  | rounds + 1, s, after => do
    let round ← markerRound limit s after
    let later ← markerRounds limit rounds round.finish round.cursor
    pure (round :: later)

/-- The state that consecutive rounds end in. -/
def finalRank (s : RankState) : List MarkerRound → RankState
  | [] => s
  | round :: later => finalRank round.finish later

/-! ### One round -/

private theorem foldl_loggedRemove (r : InventoryReporter) (calls keys : List Digest) :
    keys.foldl loggedRemove (r, calls) = (keys.foldl InventoryReporter.remove r, calls ++ keys) := by
  induction keys generalizing r calls with
  | nil => rw [List.append_nil]; rfl
  | cons key keys ih =>
    rw [List.foldl_cons, loggedRemove, ih, List.append_assoc]
    rfl

/-- The marker of a key without a file can be cleared. -/
def absentKey (s : RankState) (key : Digest) : Bool := decide (key ∉ s.files.keys)

private theorem acknowledgeAbsent_files (s : RankState) (keys : List Digest) :
    (acknowledgeAbsent s keys).files = s.files := by
  induction keys generalizing s with
  | nil => rfl
  | cons key keys ih =>
    unfold acknowledgeAbsent
    rw [List.foldl_cons]
    split
    · exact ih s
    · exact ih (clearWithdrawal s key)

private theorem keys_acknowledgeAbsent (s : RankState) (keys : List Digest) :
    (acknowledgeAbsent s keys).markers.keys =
      s.markers.keys.filter fun key ↦ !(decide (key ∈ keys) && absentKey s key) := by
  induction keys generalizing s with
  | nil => simp [acknowledgeAbsent]
  | cons key keys ih =>
    unfold acknowledgeAbsent at ih ⊢
    rw [List.foldl_cons]
    split
    · next hfile =>
      rw [ih]
      apply List.filter_congr
      intro a _
      by_cases ha : a = key
      · subst ha
        simp [absentKey, hfile]
      · simp [ha]
    · next hfile =>
      rw [ih, clearWithdrawal, OrderedDict.keys_erase, List.filter_filter]
      apply List.filter_congr
      intro a _
      by_cases ha : a = key
      · subst ha
        simp [absentKey, hfile]
      · simp [ha, absentKey]

/-- What a round does to the markers, in terms of a cyclic page. -/
structure RoundSpec (limit : Nat) (s : RankState) (after : Option Digest) (round : MarkerRound) :
    Prop where
  start : round.start = s
  withdrawn : round.withdrawn = withdrawals s.markers.keys after
  page : round.page = cyclicPage limit s.markers.keys after
  cursor : round.cursor = nextCursor limit round.page
  reporter : round.finish.reporter =
    round.withdrawn.foldl InventoryReporter.remove s.reporter
  files : round.finish.files = s.files
  markers : round.finish.markers.keys =
    afterPage limit (absentKey s) s.markers.keys after

private theorem acknowledgeAbsent_reporter (s : RankState) (keys : List Digest) :
    (acknowledgeAbsent s keys).reporter = s.reporter := by
  induction keys generalizing s with
  | nil => rfl
  | cons key keys ih =>
    unfold acknowledgeAbsent
    rw [List.foldl_cons]
    split
    · exact ih s
    · exact ih (clearWithdrawal s key)

private theorem markerRound_ok {limit : Nat} (hl : 0 < limit) (hle : limit ≤ 100000) (s : RankState)
    (after : Option Digest) :
    ∃ round, markerRound limit s after = .ok round ∧ RoundSpec limit s after round := by
  have hbatch := inventoryWithdrawalMarkerBatch_eq loggedRemove (s.reporter, []) s.markers.keys hl
    hle after
  rw [foldl_loggedRemove] at hbatch
  unfold markerRound
  rw [hbatch, ok_bind]
  refine ⟨_, rfl, ⟨rfl, List.nil_append _, rfl, rfl, ?_, ?_, ?_⟩⟩
  · exact acknowledgeAbsent_reporter _ _
  · exact acknowledgeAbsent_files _ _
  · exact keys_acknowledgeAbsent _ _

/-- The batch of a stats call is the batch of the round, without the log. -/
theorem withdrawMarkedKeys_of_markerRound {limit : Nat} (hl : 0 < limit) (hle : limit ≤ 100000)
    (s : RankState) (after : Option Digest) {round : MarkerRound}
    (h : markerRound limit s after = .ok round) :
    withdrawMarkedKeys s limit after =
        .ok ({ s with reporter := round.finish.reporter }, round.page, round.cursor) := by
  obtain ⟨round', h', hspec⟩ := markerRound_ok hl hle s after
  cases h.symm.trans h'
  unfold withdrawMarkedKeys
  rw [inventoryWithdrawalMarkerBatch_eq _ _ _ hl hle, ok_bind, hspec.reporter, hspec.withdrawn,
    hspec.cursor, hspec.page]
  rfl

/-! ### Rounds -/

private theorem markerRounds_ok {limit : Nat} (hl : 0 < limit) (hle : limit ≤ 100000) (rounds : Nat)
    (s : RankState) (after : Option Digest) :
    ∃ run, markerRounds limit rounds s after = .ok run ∧ run.length = rounds ∧
      run.map MarkerRound.page = cyclicPages limit (absentKey s) rounds s.markers.keys after ∧
      (finalRank s run).files = s.files ∧
      ∀ round ∈ run, ∃ after', RoundSpec limit round.start after' round := by
  induction rounds generalizing s after with
  | zero => exact ⟨[], rfl, rfl, rfl, rfl, fun _ h ↦ (by cases h)⟩
  | succ rounds ih =>
    obtain ⟨round, hround, hspec⟩ := markerRound_ok hl hle s after
    obtain ⟨later, hlater, hlength, hpages, hfiles, hall⟩ := ih round.finish round.cursor
    refine ⟨round :: later, ?_, ?_, ?_, ?_, ?_⟩
    · rw [markerRounds, hround, ok_bind, hlater, ok_bind]
      rfl
    · rw [List.length_cons, hlength]
    · have habsent : absentKey round.finish = absentKey s := by
        unfold absentKey
        rw [hspec.files]
      rw [List.map_cons, hpages, cyclicPages, habsent, hspec.markers, hspec.cursor, hspec.page]
    · rw [finalRank, hfiles, hspec.files]
    · intro r hr
      rcases List.mem_cons.mp hr with rfl | hr
      · exact ⟨after, hspec.start ▸ hspec⟩
      · exact hall r hr

/-- A marker stays until its key is absent and on a page. -/
theorem mem_finalRank {limit : Nat} (hl : 0 < limit) (hle : limit ≤ 100000) {rounds : Nat}
    {s : RankState} {after : Option Digest} {run : List MarkerRound}
    (h : markerRounds limit rounds s after = .ok run) (key : Digest) :
    key ∈ (finalRank s run).markers.keys ↔
      key ∈ s.markers.keys ∧ (key ∈ s.files.keys ∨ ∀ round ∈ run, key ∉ round.page) := by
  induction rounds generalizing s after run with
  | zero =>
    cases h
    simp [finalRank]
  | succ rounds ih =>
    obtain ⟨round, hround, hspec⟩ := markerRound_ok hl hle s after
    rw [markerRounds, hround, ok_bind] at h
    obtain ⟨later, hlater, h⟩ := bind_ok h
    cases h
    rw [finalRank, ih hlater, hspec.markers, mem_afterPage, hspec.files, ← hspec.page, absentKey,
      decide_eq_true_iff, List.forall_mem_cons]
    by_cases hfile : key ∈ s.files.keys
    · simp [hfile]
    · simp [hfile, and_assoc]

/-- Markers are paged without starvation: from any cursor, two sweeps select every marker and leave
exactly those of keys with a file. Every page is bounded and in order, and every round withdraws
every key marked at its start: the reporter it leaves is the one its calls of `withdraw` leave. -/
theorem markers_paged (s : RankState) (after : Option Digest) (limit : Nat) (hl : 0 < limit)
    (hle : limit ≤ 100000) (rounds : Nat)
    (hrounds : 2 * ((s.markers.keys.length + limit - 1) / limit) ≤ rounds) :
    ∃ run, markerRounds limit rounds s after = .ok run ∧ run.length = rounds ∧
      (∀ key ∈ s.markers.keys, ∃ round ∈ run, key ∈ round.page) ∧
      (∀ key, key ∈ (finalRank s run).markers.keys ↔
        key ∈ s.markers.keys ∧ key ∈ s.files.keys) ∧
      ∀ round ∈ run, round.page.length ≤ limit ∧ round.page.Pairwise (· < ·) ∧
        (∀ key ∈ round.start.markers.keys, key ∈ round.withdrawn) ∧
        round.finish.reporter = round.withdrawn.foldl InventoryReporter.remove
          round.start.reporter ∧
        ∀ key ∈ round.start.markers.keys, key ∉ round.finish.reporter.held.keys := by
  obtain ⟨run, hrun, hlength, hpages, -, hspecs⟩ := markerRounds_ok hl hle rounds s after
  have hselected : ∀ key ∈ s.markers.keys, ∃ round ∈ run, key ∈ round.page := by
    intro key hkey
    have hceil : s.markers.keys.length ≤
        (s.markers.keys.length + limit - 1) / limit * limit := by
      have hdiv := Nat.div_add_mod (s.markers.keys.length + limit - 1) limit
      have hmod := Nat.mod_lt (s.markers.keys.length + limit - 1) hl
      rw [Nat.mul_comm] at hdiv
      omega
    have hsweep := length_sweep_le s.markers.keys after
    obtain ⟨extra, rfl⟩ := Nat.exists_eq_add_of_le hrounds
    have hmore : s.markers.keys.length ≤
        ((s.markers.keys.length + limit - 1) / limit + extra) * limit := by
      rw [Nat.add_mul]
      omega
    obtain ⟨page, hpage, hmem⟩ : ∃ page ∈ cyclicPages limit (absentKey s) _ s.markers.keys after,
        key ∈ page :=
      exists_page_of_mem hl s.markers.nodup_keys (Nat.le_trans hsweep hceil) hmore hkey
    rw [← Nat.add_assoc, ← Nat.two_mul, ← hpages, List.mem_map] at hpage
    obtain ⟨round, hround, rfl⟩ := hpage
    exact ⟨round, hround, hmem⟩
  refine ⟨run, hrun, hlength, hselected, ?_, ?_⟩
  · intro key
    rw [mem_finalRank hl hle hrun key]
    refine and_congr_right fun hkey ↦ ⟨fun h ↦ ?_, .inl⟩
    refine h.resolve_right fun hnever ↦ ?_
    obtain ⟨round, hround, hmem⟩ := hselected key hkey
    exact hnever round hround hmem
  · intro round hround
    obtain ⟨after', hspec⟩ := hspecs round hround
    have hwithdrawn : ∀ key ∈ round.start.markers.keys, key ∈ round.withdrawn := by
      intro key hkey
      rw [hspec.withdrawn]
      exact mem_withdrawals.mpr hkey
    refine ⟨?_, ?_, hwithdrawn, hspec.reporter, ?_⟩
    · rw [hspec.page]
      exact length_cyclicPage_le _ _ _
    · rw [hspec.page]
      exact pairwise_cyclicPage (OrderedDict.nodup_keys _) _ _
    · intro key hkey hheld
      rw [hspec.reporter, keys_removeAll] at hheld
      exact hheld.1 (hwithdrawn key hkey)

/-- Two marked keys, of which one has a file, are paged one by one from a cursor behind both. The
reporter holds both of them and a third key. -/
def markedRank : RankState :=
  ⟨OrderedDict.empty.set (.ofNat 1) ⟨none, true, 0, 0, 0⟩,
    (OrderedDict.empty.set (.ofNat 1) ()).set (.ofNat 2) (), [],
    replaceOffers recencyStart.reporter [(.ofNat 1, 256), (.ofNat 2, 256), (.ofNat 5, 256)]⟩

/-- The reporter loses both marked keys in the first round, and the key without a file its marker.
-/
theorem markers_paged_pair :
    markedRank.reporter.held.keys = [.ofNat 5, .ofNat 2, .ofNat 1] ∧
    ∃ run, markerRounds 1 4 markedRank (some (.ofNat 3)) = .ok run ∧
      run.map MarkerRound.withdrawn =
        [[.ofNat 1, .ofNat 2, .ofNat 1, .ofNat 2], [.ofNat 1, .ofNat 2], [.ofNat 1, .ofNat 1],
          [.ofNat 1, .ofNat 1]] ∧
      (run.map fun round ↦ round.finish.reporter.held.keys) =
        [[.ofNat 5], [.ofNat 5], [.ofNat 5], [.ofNat 5]] ∧
      (∀ key, key ∈ (finalRank markedRank run).markers.keys ↔
        key ∈ markedRank.markers.keys ∧ key ∈ markedRank.files.keys) ∧
      ∀ round ∈ run, round.finish.reporter =
        round.withdrawn.foldl InventoryReporter.remove round.start.reporter := by
  obtain ⟨run, hrun, -, -, hfinal, hrounds⟩ := markers_paged markedRank (some (.ofNat 3)) 1
    (by decide) (by decide) 4 (by decide)
  refine ⟨by decide, run, hrun, ?_, ?_, hfinal, fun round hround ↦ (hrounds round hround).2.2.2.1⟩
  · -- the first batch starts behind both markers and wraps, so it calls for each of them twice
    have hcalls : (markerRounds 1 4 markedRank (some (.ofNat 3))).map
        (fun run ↦ run.map MarkerRound.withdrawn) = .ok
        [[.ofNat 1, .ofNat 2, .ofNat 1, .ofNat 2], [.ofNat 1, .ofNat 2], [.ofNat 1, .ofNat 1],
          [.ofNat 1, .ofNat 1]] := by rfl
    rw [hrun] at hcalls
    exact Except.ok.inj hcalls
  · have hheld : (markerRounds 1 4 markedRank (some (.ofNat 3))).map
        (fun run ↦ run.map fun round ↦ round.finish.reporter.held.keys) = .ok
        [[.ofNat 5], [.ofNat 5], [.ofNat 5], [.ofNat 5]] := by rfl
    rw [hrun] at hheld
    exact Except.ok.inj hheld

end SpoolCache.Connector

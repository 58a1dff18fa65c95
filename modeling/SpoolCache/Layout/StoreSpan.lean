import SpoolCache.Base.Except
import SpoolCache.Layout.Geometry

/-!
# Capturing window pages before they are recycled

`connector.py:1743–1790`. A tracked request is captured at the first step that reaches its
target, at the chunk boundary below the tokens computed so far. vLLM may recycle a page of a
sliding group once its last token has left the window of the next token. The two fit only when
the computed tokens lie close enough above the boundary.
-/

namespace SpoolCache.Layout

open SpoolCache.Base

/-- `_pre_forward_store_span`, `connector.py:1743–1790`. -/
def preForwardStoreSpan (beforeTokens scheduledTokens : PyInt)
    (targetSpanTokens quantumTokens minSpanTokens : Nat) (requireExactBoundary : Bool) :
    Except PyError (Option Nat) :=
  match beforeTokens, scheduledTokens with
  | some before, some scheduled =>
    if before < 0 ∨ scheduled < 0 then .error (.valueError "store progress cannot be negative")
    else if targetSpanTokens = 0 ∨ quantumTokens = 0 then
      .error (.valueError "store boundary configuration is invalid")
    else if targetSpanTokens % quantumTokens ≠ 0 then
      .error (.valueError "store target is not quantum aligned")
    else if before = targetSpanTokens then .ok (some targetSpanTokens)
    else if requireExactBoundary then
      if before < targetSpanTokens then .ok none else .ok (some 0)
    else if targetSpanTokens < before then .ok (some 0)
    else if before + scheduled < targetSpanTokens then .ok none
    else
      let candidate := before.toNat / quantumTokens * quantumTokens
      if minSpanTokens ≤ candidate then .ok (some candidate) else .ok (some 0)
  | _, _ => .error (.valueError "store boundary values must be integers")

/-- A positive result is the last boundary at or below the computed tokens. -/
theorem preForwardStoreSpan_pos {before scheduled : PyInt} {target quantum minSpan c : Nat}
    {exact : Bool}
    (h : preForwardStoreSpan before scheduled target quantum minSpan exact = .ok (some c))
    (hc : c ≠ 0) : ∃ b : Nat, before = some (b : Int) ∧ c = b / quantum * quantum := by
  unfold preForwardStoreSpan at h
  cases before with
  | none => cases h
  | some before =>
    cases scheduled with
    | none => cases h
    | some scheduled =>
      dsimp only at h
      split at h
      · cases h
      · next hneg =>
        have hb : ((before.toNat : Nat) : Int) = before := Int.toNat_of_nonneg (by omega)
        refine ⟨before.toNat, by rw [hb], ?_⟩
        split at h
        · cases h
        · split at h
          · cases h
          · next hal =>
            split at h
            · next heq =>
              cases h
              rw [heq, Int.toNat_natCast]
              exact (Nat.div_mul_cancel (Nat.dvd_of_mod_eq_zero (by omega))).symm
            · split at h
              · split at h
                · cases h
                · cases h
                  exact absurd rfl hc
              · split at h
                · cases h
                  exact absurd rfl hc
                · split at h
                  · cases h
                  · split at h
                    · cases h
                      rfl
                    · cases h
                      exact absurd rfl hc

/-- It does not pass the target, and with an exact boundary it is the target. -/
theorem preForwardStoreSpan_le_target {before scheduled : PyInt} {target quantum minSpan c b : Nat}
    {exact : Bool}
    (h : preForwardStoreSpan before scheduled target quantum minSpan exact = .ok (some c))
    (hc : c ≠ 0) (hb : before = some (b : Int)) :
    b ≤ target ∧ (exact = true → c = b ∧ c = target) := by
  unfold preForwardStoreSpan at h
  rw [hb] at h
  cases scheduled with
  | none => cases h
  | some scheduled =>
    dsimp only at h
    split at h
    · cases h
    · split at h
      · cases h
      · split at h
        · cases h
        · split at h
          · next heq =>
            cases h
            exact ⟨by omega, fun _ ↦ ⟨by omega, rfl⟩⟩
          · split at h
            · split at h
              · cases h
              · cases h
                exact absurd rfl hc
            · next hexact =>
              split at h
              · cases h
                exact absurd rfl hc
              · exact ⟨by omega, fun he ↦ absurd he hexact⟩

namespace HMALayout

/-- The store decision of a tracked request over its steps of computed and scheduled tokens: the
step that is captured and the captured span. Tracking ends with the first decision
(`connector.py:1009–1030`, `1055–1076`). -/
def storeDecisionFrom (l : HMALayout) (target : Nat) :
    List (PyInt × PyInt) → Except PyError (Option (PyInt × Nat))
  | [] => .ok none
  | (before, scheduled) :: steps => do
    match ← preForwardStoreSpan before scheduled target l.chunkTokens l.chunkTokens
      l.storeRequiresExactBoundary with
    | none => l.storeDecisionFrom target steps
    | some 0 => pure none
    | some span => pure (some (before, span))

/-- The store decision of a prompt; one without a safe boundary is not tracked. -/
def storeDecision (l : HMALayout) (promptTokens : Nat) (steps : List (PyInt × PyInt)) :
    Except PyError (Option (PyInt × Nat)) :=
  if l.safeStoreSpan promptTokens = 0 then .ok none
  else l.storeDecisionFrom (l.safeStoreSpan promptTokens) steps

/-- Whatever is captured is the last chunk boundary at or below the computed tokens. -/
theorem storeDecisionFrom_spec {l : HMALayout} {target c : Nat} {steps : List (PyInt × PyInt)}
    {before : PyInt} (h : l.storeDecisionFrom target steps = .ok (some (before, c))) :
    c ≠ 0 ∧ ∃ b : Nat, before = some (b : Int) ∧ c = b / l.chunkTokens * l.chunkTokens := by
  induction steps with
  | nil => cases h
  | cons step steps ih =>
    obtain ⟨b, scheduled⟩ := step
    unfold storeDecisionFrom at h
    cases hd : preForwardStoreSpan b scheduled target l.chunkTokens l.chunkTokens
        l.storeRequiresExactBoundary with
    | error e =>
      rw [hd] at h
      cases h
    | ok decision =>
      rw [hd] at h
      cases decision with
      | none => exact ih h
      | some span =>
        cases span with
        | zero => cases h
        | succ span =>
          cases h
          exact ⟨Nat.succ_ne_zero span, preForwardStoreSpan_pos hd (Nat.succ_ne_zero span)⟩

end HMALayout

/-! ### Live pages -/

namespace GroupGeometry

/-- Page `i` may be recycled once `before` tokens are computed: `(i + 1) * P <= before - W + 1`
in a sliding group, never in another one. -/
def Recyclable (g : GroupGeometry) (before i : Nat) : Prop :=
  match g.reusePolicy with
  | .sliding window => (i + 1) * g.logicalTokensPerPage + window ≤ before + 1
  | _ => False

/-- Every page selected at a span is still live. -/
def CapturesLive (g : GroupGeometry) (before span : Nat) : Prop :=
  ∃ selected, g.selectedPageCount span = .ok selected ∧
    ∀ i, span / g.logicalTokensPerPage - selected ≤ i → i < span / g.logicalTokensPerPage →
      ¬ g.Recyclable before i

/-- The computed tokens from which the capture of a sliding group is live: fewer than a window
and a page, or close enough above the chunk boundary for the pages of the window. No page is
selected when the quotient underflows. -/
def LiveBefore (g : GroupGeometry) (chunkTokens before : Nat) : Prop :=
  match g.reusePolicy with
  | .sliding window => ∃ pages, g.windowPages window = .ok pages ∧
      (pages = 0 ∨ before < window - 1 + g.logicalTokensPerPage ∨
        before % chunkTokens + pages * g.logicalTokensPerPage <
          window - 1 + g.logicalTokensPerPage)
  | _ => True

/-- The block table of a new or resumed request: null where the page may be recycled, and a page
of its own elsewhere. -/
structure ShowsTable (g : GroupGeometry) (before span : Nat) (table : List Nat) : Prop where
  length : span / g.logicalTokensPerPage ≤ table.length
  null : ∀ (i page : Nat), table[i]? = some page → (page = 0 ↔ g.Recyclable before i)
  own : ∀ (i j page : Nat), page ≠ 0 → table[i]? = some page → table[j]? = some page → i = j

/-- The oldest selected page decides. -/
theorem oldest_page_iff {P W w before chunk m : Nat} (hm : chunk = m * P) (hw : 1 < W)
    (hk : 0 < before / chunk * m) :
    (∀ i, before / chunk * m - min (before / chunk * m) w ≤ i → i < before / chunk * m →
        ¬ (i + 1) * P + W ≤ before + 1) ↔
      w = 0 ∨ before < W - 1 + P ∨ before % chunk + w * P < W - 1 + P := by
  have hsplit : before / chunk * m * P + before % chunk = before := by
    rw [Nat.mul_assoc, ← hm]
    exact Nat.div_add_mod' before chunk
  generalize before / chunk * m = k at hk hsplit ⊢
  have hmono : ∀ i j, i ≤ j → (i + 1) * P ≤ (j + 1) * P := fun i j hij ↦
    Nat.mul_le_mul_right _ (by omega)
  by_cases hw0 : w = 0
  · refine ⟨fun _ ↦ .inl hw0, fun _ i hi hik ↦ ?_⟩
    rw [hw0, Nat.min_zero, Nat.sub_zero] at hi
    omega
  · rcases Nat.le_total k w with hkw | hkw
    · -- the whole prefix is selected, from page zero on
      rw [Nat.min_eq_left hkw, Nat.sub_self]
      have hle : k * P ≤ w * P := Nat.mul_le_mul_right _ hkw
      constructor
      · intro h
        have h₀ := h 0 (Nat.zero_le _) hk
        omega
      · intro h i _ _
        have h₀ := hmono 0 i (Nat.zero_le _)
        omega
    · rw [Nat.min_eq_right hkw]
      have hsub : (k - w + 1) * P + w * P = k * P + P := by
        rw [← Nat.add_mul, show k - w + 1 + w = k + 1 by omega, Nat.succ_mul]
      constructor
      · intro h
        have h₀ := h (k - w) (Nat.le_refl _) (by omega)
        omega
      · intro h i hi _
        have h₀ := hmono (k - w) i hi
        by_cases hkw' : k = w
        · subst hkw'
          omega
        · have hP : (w + 1) * P ≤ k * P := Nat.mul_le_mul_right _ (by omega)
          rw [Nat.succ_mul] at hP
          omega

/-- At an aligned span a full group selects every page and a sliding group those of its window. -/
theorem selectedPageCount_aligned {g : GroupGeometry} {span : Nat} (hs : span ≠ 0)
    (hd : g.logicalTokensPerPage ∣ span) :
    (g.reusePolicy = .full →
      g.selectedPageCount span = .ok (span / g.logicalTokensPerPage)) ∧
      ∀ window, g.reusePolicy = .sliding window →
        g.selectedPageCount span =
          (g.windowPages window).map fun pages ↦ min (span / g.logicalTokensPerPage) pages := by
  have hmod : ¬ span % g.logicalTokensPerPage ≠ 0 := by
    rw [not_not]
    exact Nat.mod_eq_zero_of_dvd hd
  refine ⟨?_, ?_⟩
  · intro hp
    rw [selectedPageCount, if_neg hs, hp, if_neg (by simp), if_neg hmod]
  · intro window hp
    rw [selectedPageCount, if_neg hs, hp, if_neg (by simp), if_neg hmod]
    cases hw : g.windowPages window with
    | error e => simp only [hw, bind, Except.bind, Except.map]
    | ok pages => simp only [hw, bind, Except.bind, pure, Except.pure, Except.map]

private theorem capturesLive_iff {g : GroupGeometry} {chunk before : Nat}
    (hp : g.reusePolicy = .full ∨ ∃ window, g.reusePolicy = .sliding window)
    (hd : g.logicalTokensPerPage ∣ chunk) (hs : before / chunk * chunk ≠ 0) :
    g.CapturesLive before (before / chunk * chunk) ↔ g.LiveBefore chunk before := by
  obtain ⟨hfull, hsliding⟩ := selectedPageCount_aligned hs (hd.mul_left _)
  rcases hp with hp | ⟨window, hp⟩
  · simp only [CapturesLive, LiveBefore, Recyclable, hp, iff_true]
    exact ⟨_, hfull hp, fun i _ _ h ↦ h⟩
  · obtain ⟨m, hm⟩ := hd
    rw [Nat.mul_comm] at hm
    have hdiv : before / chunk * chunk / g.logicalTokensPerPage = before / chunk * m := by
      have he : before / chunk * chunk = before / chunk * m * g.logicalTokensPerPage := by
        rw [Nat.mul_assoc, ← hm]
      rw [he, Nat.mul_div_cancel _ g.logicalTokensPerPage_pos]
    have hpos : 0 < before / chunk * m := by
      rw [Nat.pos_iff_ne_zero]
      intro h0
      apply hs
      rw [hm, ← Nat.mul_assoc, ← hm, h0, Nat.zero_mul]
    simp only [CapturesLive, LiveBefore, Recyclable, hp, hsliding window hp, hdiv]
    cases hw : g.windowPages window with
    | error e =>
      refine ⟨fun ⟨n, hn, _⟩ ↦ (by cases hn), fun ⟨n, hn, _⟩ ↦ (by cases hn)⟩
    | ok pages =>
      have hiff := oldest_page_iff (w := pages) hm (g.window_gt window hp) hpos
      constructor
      · rintro ⟨n, hn, hlive⟩
        cases hn
        exact ⟨pages, rfl, hiff.mp hlive⟩
      · rintro ⟨n, hn, hlive⟩
        cases hn
        exact ⟨_, rfl, hiff.mpr hlive⟩

private theorem getElem?_slice {table : List Nat} {a b i page : Nat}
    (h : ((table.take b).drop a)[i]? = some page) : a + i < b ∧ table[a + i]? = some page := by
  rw [List.getElem?_drop, List.getElem?_take] at h
  split at h
  · next hlt => exact ⟨hlt, h⟩
  · cases h

/-- A slice of a table whose own pages are distinct is valid exactly when it shows no null. -/
theorem slice_valid_iff {table : List Nat} {a b : Nat}
    (hown : ∀ (i j page : Nat), page ≠ 0 → table[i]? = some page → table[j]? = some page → i = j) :
    (0 ∉ (table.take b).drop a ∧ ((table.take b).drop a).Nodup) ↔
      ∀ i, a ≤ i → i < b → table[i]? ≠ some 0 := by
  constructor
  · rintro ⟨hz, -⟩ i hai hib hi
    apply hz
    rw [List.mem_iff_getElem?]
    refine ⟨i - a, ?_⟩
    rw [List.getElem?_drop, List.getElem?_take, show a + (i - a) = i by omega, if_pos hib, hi]
  · intro h
    have hz : 0 ∉ (table.take b).drop a := by
      intro hmem
      obtain ⟨i, hi⟩ := List.mem_iff_getElem?.mp hmem
      obtain ⟨hlt, hget⟩ := getElem?_slice hi
      exact h (a + i) (Nat.le_add_right _ _) hlt hget
    refine ⟨hz, List.nodup_iff_getElem?_ne_getElem?.mpr ?_⟩
    intro i j hij hj heq
    obtain ⟨page, hpage⟩ : ∃ page, ((table.take b).drop a)[j]? = some page :=
      ⟨_, List.getElem?_eq_getElem hj⟩
    have hne : page ≠ 0 := by
      rintro rfl
      exact hz (List.mem_of_getElem? hpage)
    have hij' := hown _ _ page hne (getElem?_slice (heq.trans hpage)).2 (getElem?_slice hpage).2
    omega

/-- On the table of a new or resumed request the selection succeeds exactly when every selected
page is live. -/
theorem exists_selectPhysicalPages_iff {g : GroupGeometry} {before span : Nat} {table : List Nat}
    (hp : g.reusePolicy = .full ∨ ∃ window, g.reusePolicy = .sliding window)
    (ht : g.ShowsTable before span table) :
    (∃ pages, g.selectPhysicalPages table span = .ok pages) ↔ g.CapturesLive before span := by
  have hlen := ht.length
  unfold selectPhysicalPages CapturesLive
  cases hc : g.selectedPageCount span with
  | error e =>
    refine ⟨fun ⟨pages, h⟩ ↦ (by cases h), fun ⟨n, h, _⟩ ↦ (by cases h)⟩
  | ok selected =>
    have hnamed : g.namedPages table selected (span / g.logicalTokensPerPage) =
        .ok ((table.take (span / g.logicalTokensPerPage)).drop
          (span / g.logicalTokensPerPage - selected)) := by
      unfold namedPages
      rcases hp with hp | ⟨window, hp⟩
      · rw [hp]
        exact if_neg (by omega)
      · rw [hp]
        exact if_neg (by omega)
    have hvalid := slice_valid_iff (a := span / g.logicalTokensPerPage - selected)
      (b := span / g.logicalTokensPerPage) ht.own
    have hlive : (∀ i, span / g.logicalTokensPerPage - selected ≤ i →
        i < span / g.logicalTokensPerPage → table[i]? ≠ some 0) ↔
        ∀ i, span / g.logicalTokensPerPage - selected ≤ i →
          i < span / g.logicalTokensPerPage → ¬ g.Recyclable before i := by
      refine forall_congr' fun i ↦ forall_congr' fun _ ↦ forall_congr' fun hi ↦ ?_
      rw [List.getElem?_eq_getElem (by omega), not_iff_not,
        ← ht.null i _ (List.getElem?_eq_getElem (by omega)), Option.some_inj]
    simp only [bind, Except.bind, hnamed, pure, Except.pure]
    constructor
    · rintro ⟨pages, h⟩
      refine ⟨selected, rfl, hlive.mp (hvalid.mp ?_)⟩
      split at h
      · cases h
      · next hz =>
        split at h
        · cases h
        · next hn => exact ⟨hz, not_not.mp hn⟩
    · rintro ⟨n, hn, h⟩
      cases hn
      obtain ⟨hz, hnd⟩ := hvalid.mpr (hlive.mpr h)
      rw [if_neg hz, if_neg (not_not.mpr hnd)]
      exact ⟨_, rfl⟩

end GroupGeometry

namespace HMALayout

/-- Every page that a capture at a span selects is still live, in every group. -/
def CapturesLive (l : HMALayout) (before span : Nat) : Prop :=
  ∀ g ∈ l.groups, g.CapturesLive before span

/-- The condition on the computed tokens, for every group. -/
def LiveBefore (l : HMALayout) (before : Nat) : Prop :=
  ∀ g ∈ l.groups, g.LiveBefore l.chunkTokens before

/-- The block tables of a new or resumed request. -/
def ShowsTables (l : HMALayout) (before span : Nat) (tables : List (List Nat)) : Prop :=
  tables.length = l.groups.length ∧
    ∀ p ∈ l.groups.zip tables, p.1.ShowsTable before span p.2

private theorem exists_selectPhysicalPages_iff {l : HMALayout} {before span : Nat}
    {tables : List (List Nat)}
    (hp : ∀ g ∈ l.groups, g.reusePolicy = .full ∨ ∃ window, g.reusePolicy = .sliding window)
    (ht : l.ShowsTables before span tables) :
    (∃ pages, l.selectPhysicalPages tables span = .ok pages) ↔ l.CapturesLive before span := by
  obtain ⟨hlen, hshow⟩ := ht
  unfold selectPhysicalPages
  rw [if_neg (not_not.mpr hlen), exists_mapM_ok_iff]
  constructor
  · intro h g hg
    obtain ⟨i, hi, hget⟩ := List.getElem_of_mem hg
    have hz : (g, tables[i]) ∈ l.groups.zip tables := by
      rw [List.mem_iff_getElem]
      refine ⟨i, by rw [List.length_zip]; omega, ?_⟩
      rw [List.getElem_zip, hget]
    exact (GroupGeometry.exists_selectPhysicalPages_iff (hp g hg) (hshow _ hz)).mp (h _ hz)
  · intro h p hz
    have hg := (List.of_mem_zip hz).1
    exact (GroupGeometry.exists_selectPhysicalPages_iff (hp _ hg) (hshow p hz)).mpr (h _ hg)

/-- In a layout of full and sliding groups, whatever the prompt and the steps of a request: the
pages of its capture are live, and the selection on the tables of a new or resumed request does
not raise, exactly when the computed tokens meet the condition of every group. -/
theorem captured_pages_live_iff (l : HMALayout)
    (hp : ∀ g ∈ l.groups, g.reusePolicy = .full ∨ ∃ window, g.reusePolicy = .sliding window)
    (promptTokens : Nat) (steps : List (PyInt × PyInt)) (before : PyInt) (span : Nat)
    (h : l.storeDecision promptTokens steps = .ok (some (before, span))) :
    ∃ b : Nat, before = some (b : Int) ∧
      (l.CapturesLive b span ↔ l.LiveBefore b) ∧
      ∀ tables, l.ShowsTables b span tables →
        ((∃ pages, l.selectPhysicalPages tables span = .ok pages) ↔ l.LiveBefore b) := by
  unfold storeDecision at h
  split at h
  · cases h
  · obtain ⟨hspan, b, hb, rfl⟩ := storeDecisionFrom_spec h
    have hlive : l.CapturesLive b (b / l.chunkTokens * l.chunkTokens) ↔ l.LiveBefore b := by
      refine forall_congr' fun g ↦ forall_congr' fun hg ↦ ?_
      refine GroupGeometry.capturesLive_iff (hp g hg) ?_ hspan
      refine (page_dvd_alignmentTokens hg ?_).trans l.alignmentTokens_dvd_chunkTokens
      rcases hp g hg with hfull | ⟨window, hsliding⟩
      · rw [hfull]
        exact nofun
      · rw [hsliding]
        exact nofun
    refine ⟨b, hb, hlive, ?_⟩
    intro tables ht
    rw [exists_selectPhysicalPages_iff hp ht, hlive]

/-- A sliding group with a window of 129 and pages of 16 tokens. -/
def slidingSampleGroup : GroupGeometry where
  groupIndex := 0
  blockSize := 16
  dcpShardCount := 1
  logicalTokensPerPage := 16
  reusePolicy := .sliding 129
  layers := [sampleLayer]
  blockSize_pos := Nat.succ_pos _
  dcpShardCount_pos := Nat.one_pos
  logical_eq := rfl
  window_gt := fun w h ↦ (by cases h; decide)
  layers_sorted := sampleLayer_sorted

/-- The layout of that group; its chunks are 256 tokens wide. -/
def slidingSample : HMALayout where
  groups := [slidingSampleGroup]
  groupIndex_eq := rfl
  layers_ne := sampleLayer_ne_nil
  layers_nodup := sampleLayer_nodup

/-- A prompt of 600 tokens whose steps split at a chunk boundary is captured live there. -/
theorem captured_pages_live_at_boundary : slidingSample.CapturesLive 256 256 := by
  obtain ⟨b, hb, hlive, -⟩ := captured_pages_live_iff slidingSample
    (fun g hg ↦ .inr ⟨129, by rw [List.mem_singleton.mp hg]; rfl⟩) 600
    [(some 0, some 256), (some 256, some 344)] (some 256) 256 (by decide +kernel)
  have hb' : b = 256 := by
    have := Option.some.inj hb
    omega
  subst hb'
  rw [hlive]
  intro g hg
  rw [List.mem_singleton.mp hg]
  exact ⟨8, by decide +kernel, by decide +kernel⟩

/-- With steps that split 100 tokens above it, the capture at the same boundary selects page 8,
which is recyclable from 272 computed tokens on. -/
theorem captured_page_recyclable :
    slidingSample.storeDecision 600 [(some 0, some 356), (some 356, some 244)] =
      .ok (some (some 356, 256)) ∧ ¬ slidingSample.CapturesLive 356 256 := by
  refine ⟨by decide +kernel, ?_⟩
  intro h
  obtain ⟨selected, hs, hlive⟩ := h _ (List.mem_singleton.mpr rfl)
  have hselected : selected = 8 := by
    have he : slidingSampleGroup.selectedPageCount 256 = .ok 8 := by decide +kernel
    exact Except.ok.inj (hs.symm.trans he)
  subst hselected
  refine hlive 8 (by decide +kernel) (by decide +kernel) ?_
  change (8 + 1) * 16 + 129 ≤ 356 + 1
  decide

end HMALayout

end SpoolCache.Layout

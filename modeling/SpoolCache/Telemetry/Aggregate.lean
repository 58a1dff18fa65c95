import SpoolCache.Quorum.Report
import SpoolCache.Telemetry.MergeSpec

/-!
# Aggregated statistics

`SpoolCacheStats.aggregate`, `connector.py:178–228`. vLLM adds the statistics of workers to an
accumulator in an order of its own. Grouping does not matter, no observation is lost without being
counted, and a failed aggregation leaves the accumulator alone.
-/

namespace SpoolCache.Telemetry

open SpoolCache.Base SpoolCache.Quorum

/-- `SpoolCacheStats`, `connector.py:178–183`. -/
structure SpoolCacheStats where
  data : Json
  reports : List RawReport

/-- The rank of a report; only reports with one are used. -/
def reportRank (report : RawReport) : Int := report.rank.getD 0

section

variable (bounds : InventoryBounds)

/-- The loop over the reports, `connector.py:195–205`. -/
def checkReports : List RawReport → List Int → Except PyError Unit
  | [], _ => .ok ()
  | report :: reports, ranks => do
    let _ ← validateInventoryReport bounds report
    if reportRank report ∈ ranks then
      .error (.valueError "SpoolCache inventory report ranks are duplicated")
    else checkReports reports (reportRank report :: ranks)

/-- `__post_init__`, `connector.py:185–205`. -/
def SpoolCacheStats.postInit (stats : SpoolCacheStats) : Except PyError Unit := do
  validateMetricPayload stats.data
  if maxInventoryReports < stats.reports.length then
    .error (.valueError "SpoolCache inventory report count exceeds its bound")
  else checkReports bounds stats.reports []

/-- A computation inside a method that may change its object. -/
def method {α : Type} (x : Except PyError α) : EStateM PyError SpoolCacheStats α := fun self ↦
  match x with
  | .ok a => .ok a self
  | .error e => .error e self

/-- The checks and the merged values, `connector.py:214–224`. -/
def mergedStats (self other : SpoolCacheStats) : Except PyError (Json × List RawReport) := do
  self.postInit bounds
  other.postInit bounds
  if ∃ report ∈ self.reports, reportRank report ∈ other.reports.map reportRank then
    .error (.valueError "SpoolCache inventory report ranks are duplicated")
  else
    let latest : OrderedDict Int RawReport :=
      .ofItems ((self.reports ++ other.reports).map fun report ↦ (reportRank report, report))
    if maxInventoryReports < latest.size then
      .error (.valueError "SpoolCache inventory report count exceeds its bound")
    else do
      let mergedData ← mergeMetricPayloads [self.data, other.data]
      pure (mergedData, latest.sortedItems.map Prod.snd)

/-- `aggregate`, `connector.py:211–228`, of the accumulator that is the state. -/
def aggregate (other : SpoolCacheStats) : EStateM PyError SpoolCacheStats Unit := do
  let (mergedData, mergedReports) ← method (mergedStats bounds (← get) other)
  modify fun self ↦ { self with data := mergedData }
  modify fun self ↦ { self with reports := mergedReports }

end

/-! ### Reports -/

private theorem checkReports_ok_iff {bounds : InventoryBounds} {reports : List RawReport}
    {ranks : List Int} :
    checkReports bounds reports ranks = .ok () ↔
      (∀ report ∈ reports, ∃ r, validateInventoryReport bounds report = .ok r) ∧
        (reports.map reportRank).Nodup ∧ ∀ rank ∈ reports.map reportRank, rank ∉ ranks := by
  induction reports generalizing ranks with
  | nil => simp [checkReports]
  | cons report reports ih =>
    rw [checkReports, List.map_cons, List.nodup_cons, List.forall_mem_cons, List.forall_mem_cons]
    constructor
    · intro h
      obtain ⟨r, hvalid, h⟩ := bind_ok h
      split at h
      · cases h
      · next hrank =>
        obtain ⟨hall, hnodup, hfresh⟩ := ih.mp h
        refine ⟨⟨⟨r, hvalid⟩, hall⟩, ⟨fun hm ↦ hfresh _ hm List.mem_cons_self, hnodup⟩, hrank, ?_⟩
        exact fun rank hm hin ↦ hfresh rank hm (List.mem_cons_of_mem _ hin)
    · rintro ⟨⟨⟨r, hvalid⟩, hall⟩, ⟨hnotin, hnodup⟩, hrank, hfresh⟩
      rw [hvalid, ok_bind, if_neg hrank]
      refine ih.mpr ⟨hall, hnodup, fun rank hm hin ↦ ?_⟩
      rcases List.mem_cons.mp hin with rfl | hin
      · exact hnotin hm
      · exact hfresh rank hm hin

/-- Statistics that pass `__post_init__`. -/
structure SpoolCacheStats.Valid (bounds : InventoryBounds) (stats : SpoolCacheStats) : Prop where
  data : validateMetricPayload stats.data = .ok ()
  few : stats.reports.length ≤ maxInventoryReports
  reports : ∀ report ∈ stats.reports, ∃ r, validateInventoryReport bounds report = .ok r
  ranks : (stats.reports.map reportRank).Nodup

private theorem postInit_ok_iff {bounds : InventoryBounds} {stats : SpoolCacheStats} :
    stats.postInit bounds = .ok () ↔ stats.Valid bounds := by
  unfold SpoolCacheStats.postInit
  constructor
  · intro h
    obtain ⟨u, hv, h⟩ := bind_ok h
    split at h
    · cases h
    · next hfew =>
      obtain ⟨hall, hnodup, -⟩ := checkReports_ok_iff.mp h
      exact ⟨hv, Nat.le_of_not_lt hfew, hall, hnodup⟩
  · intro h
    rw [h.data, ok_bind, if_neg (Nat.not_lt.mpr h.few)]
    exact checkReports_ok_iff.mpr ⟨h.reports, h.ranks, fun _ _ hin ↦ (by cases hin)⟩

private theorem merged_reports {reports : List RawReport} (hn : (reports.map reportRank).Nodup) :
    let latest : OrderedDict Int RawReport :=
      .ofItems (reports.map fun report ↦ (reportRank report, report))
    (latest.sortedItems.map Prod.snd).Perm reports ∧
      (latest.sortedItems.map Prod.snd).Pairwise fun a b ↦ reportRank a ≤ reportRank b := by
  intro latest
  have hkeys : ((reports.map fun report ↦ (reportRank report, report)).map Prod.fst).Nodup := by
    rw [List.map_map]
    exact hn
  have hitems : latest.items = reports.map fun report ↦ (reportRank report, report) :=
    OrderedDict.items_ofItems _ hkeys
  have hrank : ∀ p ∈ latest.sortedItems, p.1 = reportRank p.2 := by
    intro p hp
    have hm := latest.perm_sortedItems.mem_iff.mp hp
    rw [hitems, List.mem_map] at hm
    obtain ⟨report, -, rfl⟩ := hm
    rfl
  constructor
  · have hperm := latest.perm_sortedItems.map Prod.snd
    rw [hitems, List.map_map] at hperm
    exact hperm.trans (.of_eq (List.map_id _))
  · have hsorted : latest.sortedItems.Pairwise fun p q ↦ p.1 ≤ q.1 :=
      List.pairwise_insertionSort _ _
    rw [List.pairwise_map]
    refine hsorted.imp_of_mem ?_
    intro p q hp hq hle
    rw [← hrank p hp, ← hrank q hq]
    exact hle

private theorem nodup_ranks {reports reports' : List RawReport}
    (hn : (reports.map reportRank).Nodup) (hn' : (reports'.map reportRank).Nodup)
    (hdisjoint : ∀ report ∈ reports, reportRank report ∉ reports'.map reportRank) :
    ((reports ++ reports').map reportRank).Nodup := by
  rw [List.map_append, List.nodup_append]
  refine ⟨hn, hn', ?_⟩
  intro rank hrank rank' hrank' he
  obtain ⟨report, hreport, rfl⟩ := List.mem_map.mp hrank
  exact hdisjoint report hreport (he ▸ hrank')

private theorem size_ofItems {reports : List RawReport} (hn : (reports.map reportRank).Nodup) :
    (OrderedDict.ofItems (reports.map fun report ↦ (reportRank report, report))).size =
      reports.length := by
  have hkeys : ((reports.map fun report ↦ (reportRank report, report)).map Prod.fst).Nodup := by
    rw [List.map_map]
    exact hn
  rw [OrderedDict.size, OrderedDict.items_ofItems _ hkeys, List.length_map]

private theorem mergedStats_ok {bounds : InventoryBounds} {self other : SpoolCacheStats}
    {data : Json}
    {reports : List RawReport} (h : mergedStats bounds self other = .ok (data, reports)) :
    mergeMetricPayloads [self.data, other.data] = .ok data ∧
      reports.Perm (self.reports ++ other.reports) ∧
      reports.Pairwise fun a b ↦ reportRank a ≤ reportRank b := by
  obtain ⟨u, hself, h⟩ := bind_ok h
  obtain ⟨u', hother, h⟩ := bind_ok h
  split at h
  · cases h
  · next hdisjoint =>
    dsimp only at h
    split at h
    · cases h
    · obtain ⟨merged, hmerged, h⟩ := bind_ok h
      cases h
      have hn := nodup_ranks (postInit_ok_iff.mp hself).ranks (postInit_ok_iff.mp hother).ranks
        fun report hreport hrank ↦ hdisjoint ⟨report, hreport, hrank⟩
      exact ⟨hmerged, merged_reports hn⟩

private theorem aggregate_of_ok {bounds : InventoryBounds} {self other : SpoolCacheStats}
    {data : Json}
    {reports : List RawReport} (h : mergedStats bounds self other = .ok (data, reports)) :
    (aggregate bounds other).run self = .ok () ⟨data, reports⟩ := by
  have hmethod : method (mergedStats bounds self other) self = .ok (data, reports) self := by
    rw [h]
    rfl
  change EStateM.bind (method (mergedStats bounds self other)) _ self = _
  rw [EStateM.bind, hmethod]
  rfl

private theorem aggregate_of_error {bounds : InventoryBounds} {self other : SpoolCacheStats}
    {e : PyError} (h : mergedStats bounds self other = .error e) :
    (aggregate bounds other).run self = .error e self := by
  have hmethod : method (mergedStats bounds self other) self = .error e self := by
    rw [h]
    rfl
  change EStateM.bind (method (mergedStats bounds self other)) _ self = _
  rw [EStateM.bind, hmethod]

/-- An aggregation changes the accumulator to the merged data and the reports of both in the order
of their ranks, or raises and leaves it alone. -/
theorem aggregate_spec (bounds : InventoryBounds) (self other : SpoolCacheStats) :
    (∃ self', (aggregate bounds other).run self = .ok () self' ∧
      mergeMetricPayloads [self.data, other.data] = .ok self'.data ∧
      self'.reports.Perm (self.reports ++ other.reports) ∧
      self'.reports.Pairwise fun a b ↦ reportRank a ≤ reportRank b) ∨
      ∃ e, (aggregate bounds other).run self = .error e self := by
  cases h : mergedStats bounds self other with
  | ok merged =>
    obtain ⟨data, reports⟩ := merged
    exact .inl ⟨⟨data, reports⟩, aggregate_of_ok h, mergedStats_ok h⟩
  | error e => exact .inr ⟨e, aggregate_of_error h⟩

/-! ### Regrouping -/

/-- No part of `t` is more than in `u`. -/
structure Tally.Below (t u : Tally) : Prop where
  counters : ∀ key, (t.counters key).getD 0 ≤ (u.counters key).getD 0 ∧
    ((t.counters key).isSome = true → (u.counters key).isSome = true)
  gauges : ∀ key, (t.gauges key).isSome = true → (u.gauges key).isSome = true
  histograms : ∀ key, (t.histograms key).isSome = true → (u.histograms key).isSome = true

private theorem Tally.Bounded.below {t u : Tally} (h : u.Bounded) (htu : t.Below u) : t.Bounded :=
  ⟨fun key ↦ Nat.le_trans (htu.counters key).1 (h.counters key),
    h.fewCounters.mono fun key ↦ (htu.counters key).2, h.fewGauges.mono htu.gauges,
    h.fewHistograms.mono htu.histograms⟩

private theorem overflow_mono {t u : Tally} (h : ∀ key, t.observed key ≤ u.observed key) :
    t.overflow ≤ u.overflow := by
  unfold Tally.overflow
  generalize Tally.histogramKeys = keys
  induction keys with
  | nil => simp
  | cons key keys ih =>
    have := h key
    simp only [List.map_cons, List.sum_cons]
    omega

/-- Cutting keeps the order, when no histogram has fewer observations. -/
theorem Tally.Below.cut {t u : Tally} (h : t.Below u)
    (ho : ∀ key, t.observed key ≤ u.observed key) : t.cut.Below u.cut := by
  have hoverflow := overflow_mono ho
  refine ⟨?_, h.gauges, ?_⟩
  · intro key
    rw [Tally.counters_cut, Tally.counters_cut, Tally.getD_addDropped, Tally.getD_addDropped,
      Tally.isSome_addDropped, Tally.isSome_addDropped]
    obtain ⟨hle, hsome⟩ := h.counters key
    constructor
    · split <;> omega
    · rw [Bool.or_eq_true, Bool.or_eq_true, decide_eq_true_iff, decide_eq_true_iff]
      rintro (hs | ⟨hne, hkey⟩)
      · exact .inl (hsome hs)
      · exact .inr ⟨by omega, hkey⟩
  · intro key hs
    have hsome := h.histograms key
    simp only [Tally.cut, Option.isSome_map] at hs ⊢
    exact hsome hs

private theorem below_append_left (x y : Tally) : x.Below (x.append y) := by
  refine ⟨?_, ?_, ?_⟩
  · intro key
    rw [Tally.counters_append, getD_addOption, isSome_addOption]
    exact ⟨Nat.le_add_right _ _, fun h ↦ by rw [h, Bool.true_or]⟩
  · intro key h
    rw [Tally.gauges_append, Option.isSome_or, h, Bool.or_true]
  · intro key h
    obtain ⟨a, ha⟩ := Option.isSome_iff_exists.mp h
    simp [Tally.append, ha, appendOption]

private theorem below_append_right (x y : Tally) : y.Below (x.append y) := by
  refine ⟨?_, ?_, ?_⟩
  · intro key
    rw [Tally.counters_append, getD_addOption, isSome_addOption]
    exact ⟨Nat.le_add_left _ _, fun h ↦ by rw [h, Bool.or_true]⟩
  · intro key h
    rw [Tally.gauges_append, Option.isSome_or, h, Bool.true_or]
  · intro key h
    obtain ⟨b, hb⟩ := Option.isSome_iff_exists.mp h
    cases hx : x.histograms key <;> simp [Tally.append, hx, hb, appendOption]

private theorem eq_ok_of_toOption {α : Type} {x : Except PyError α} {a : α}
    (h : x.toOption = (.ok a : Except PyError α).toOption) : x = .ok a := by
  cases x with
  | error e => cases h
  | ok b =>
    cases h
    rfl

private theorem toOption_eq_of_ok_iff {α : Type} {x y : Except PyError α}
    (h : ∀ a, x = .ok a ↔ y = .ok a) : x.toOption = y.toOption := by
  cases x with
  | ok a =>
    rw [(h a).mp rfl]
  | error e =>
    cases y with
    | ok b =>
      have hb := (h b).mpr rfl
      cases hb
    | error e' => rfl

private theorem exists_payload {payloads : List Json}
    (hv : ∀ p ∈ payloads, validateMetricPayload p = .ok ())
    (hb : (tallyAll payloads).cut.Bounded) : ∃ r, mergeMetricPayloads payloads = .ok r := by
  obtain ⟨hrep, hexists⟩ := foldlM_mergePayload hv represents_empty
  have hle : ∀ key, ((tallyAll payloads).counters key).getD 0 ≤ maxMetricValue := by
    intro key
    have h := hb.counters key
    rw [Tally.counters_cut, Tally.getD_addDropped] at h
    omega
  obtain ⟨s, hfold⟩ := hexists hle
  have hs := hrep s hfold
  obtain ⟨c, hadd⟩ := (addOverflow_spec hs).2 hb.counters
  have hc := ((addOverflow_spec hs).1 c hadd).1
  exact ⟨_, (mergeMetricPayloads_ok_iff hv _).mpr
    ⟨hb, c, s.gauges, s.histograms, hc, hs.gauges, hs.histograms.kept, rfl⟩⟩

/-- Two lists of valid payloads that say the same once cut merge to the same, if at all. -/
theorem merge_eq_of_cut {payloads payloads' : List Json}
    (hv : ∀ p ∈ payloads, validateMetricPayload p = .ok ())
    (hv' : ∀ p ∈ payloads', validateMetricPayload p = .ok ())
    (h : (tallyAll payloads).cut = (tallyAll payloads').cut) :
    (mergeMetricPayloads payloads).toOption = (mergeMetricPayloads payloads').toOption := by
  apply toOption_eq_of_ok_iff
  intro r
  rw [mergeMetricPayloads_ok_iff hv, mergeMetricPayloads_ok_iff hv', h]

private theorem tallyAll_pair (a b : Json) : tallyAll [a, b] = (tally a).append (tally b) := by
  simp only [tallyAll, List.map_cons, List.map_nil, List.foldl_cons, List.foldl_nil,
    Tally.empty_append]

private theorem tallyAll_triple (a b c : Json) :
    tallyAll [a, b, c] = ((tally a).append (tally b)).append (tally c) := by
  simp only [tallyAll, List.map_cons, List.map_nil, List.foldl_cons, List.foldl_nil,
    Tally.empty_append]

private theorem observed_le_append_left (x y : Tally) (key : MetricKey) :
    x.observed key ≤ (x.append y).observed key := by
  rw [Tally.observed_append]
  omega

private theorem observed_le_append_right (x y : Tally) (key : MetricKey) :
    y.observed key ≤ (x.append y).observed key := by
  rw [Tally.observed_append]
  omega

/-- A step of a merge in two steps raises only where the merge in one step does. -/
theorem merge_bind_eq {inner outer : List Json} {f : Json → List Json}
    (hinner : ∀ p ∈ inner, validateMetricPayload p = .ok ())
    (houter : ∀ p ∈ outer, validateMetricPayload p = .ok ())
    (hbelow : (tallyAll inner).cut.Below (tallyAll outer).cut)
    (hregroup : ∀ r, mergeMetricPayloads inner = .ok r →
      (mergeMetricPayloads (f r)).toOption = (mergeMetricPayloads outer).toOption) :
    (mergeMetricPayloads inner >>= fun r ↦ mergeMetricPayloads (f r)).toOption =
      (mergeMetricPayloads outer).toOption := by
  cases hr : mergeMetricPayloads inner with
  | ok r => exact hregroup r hr
  | error e =>
    cases ho : mergeMetricPayloads outer with
    | error e' => rfl
    | ok r' =>
      have hb := ((mergeMetricPayloads_ok_iff houter r').mp ho).1
      obtain ⟨r, hok⟩ := exists_payload hinner (hb.below hbelow)
      rw [hr] at hok
      cases hok

private theorem forall_mem_pair {P : Json → Prop} {a b : Json} (ha : P a) (hb : P b) :
    ∀ p ∈ [a, b], P p := by
  simp [ha, hb]

private theorem forall_mem_triple {P : Json → Prop} {a b c : Json} (ha : P a) (hb : P b)
    (hc : P c) :
    ∀ p ∈ [a, b, c], P p := by
  simp [ha, hb, hc]

section

variable {a b c : Json} (ha : validateMetricPayload a = .ok ())
  (hb : validateMetricPayload b = .ok ()) (hc : validateMetricPayload c = .ok ())
include ha hb hc

private theorem merge_merge_left :
    (mergeMetricPayloads [a, b] >>= fun ab ↦ mergeMetricPayloads [ab, c]).toOption =
      (mergeMetricPayloads [a, b, c]).toOption := by
  have hab := forall_mem_pair (P := fun p ↦ validateMetricPayload p = .ok ()) ha hb
  have habc := forall_mem_triple (P := fun p ↦ validateMetricPayload p = .ok ()) ha hb hc
  refine merge_bind_eq (f := fun ab ↦ [ab, c]) hab habc ?_ ?_
  · rw [tallyAll_pair, tallyAll_triple]
    exact (below_append_left _ _).cut (observed_le_append_left _ _)
  · intro r hr
    obtain ⟨hvalid, htally⟩ := merged_valid hab hr
    refine merge_eq_of_cut (forall_mem_pair hvalid hc) habc ?_
    rw [tallyAll_pair, htally, tallyAll_pair, tallyAll_triple, Tally.cut_cut_append]

private theorem merge_merge_right :
    (mergeMetricPayloads [b, c] >>= fun bc ↦ mergeMetricPayloads [a, bc]).toOption =
      (mergeMetricPayloads [a, b, c]).toOption := by
  have hbc := forall_mem_pair (P := fun p ↦ validateMetricPayload p = .ok ()) hb hc
  have habc := forall_mem_triple (P := fun p ↦ validateMetricPayload p = .ok ()) ha hb hc
  refine merge_bind_eq (f := fun bc ↦ [a, bc]) hbc habc ?_ ?_
  · rw [tallyAll_pair, tallyAll_triple, Tally.append_assoc]
    exact (below_append_right _ _).cut (observed_le_append_right _ _)
  · intro r hr
    obtain ⟨hvalid, htally⟩ := merged_valid hbc hr
    refine merge_eq_of_cut (forall_mem_pair ha hvalid) habc ?_
    rw [tallyAll_pair, htally, tallyAll_pair, tallyAll_triple, Tally.append_assoc,
      Tally.cut_append_cut]

end

/-! ### Conservation -/

/-- The value of a counter in a payload. -/
def counterValue (payload : Json) (key : MetricKey) : Nat :=
  ((recordsOf (decodeCounters payload)).get? key).getD 0

/-- The observations of a histogram in a payload. -/
def histogramValues (payload : Json) (key : MetricKey) : List Nat :=
  ((recordsOf (decodeHistograms payload)).get? key).getD []

/-- The number of histogram observations in a payload. -/
def observationCount (payload : Json) : Nat :=
  (((decodeHistograms payload).toOption.getD []).map fun record ↦ record.2.length).sum

private theorem sum_lengths_records {records : List (MetricKey × List Nat)}
    (hn : (records.map Prod.fst).Nodup)
    (hk : ∀ key ∈ records.map Prod.fst, key ∈ Tally.histogramKeys) :
    (Tally.histogramKeys.map fun key ↦
      (((OrderedDict.ofItems records).get? key).getD []).length).sum =
      (records.map fun record ↦ record.2.length).sum := by
  induction records with
  | nil =>
    generalize Tally.histogramKeys = keys
    simp [get?_ofItems_nil]
  | cons record records ih =>
    obtain ⟨k, l⟩ := record
    have hn' := (List.nodup_cons.mp hn).2
    have hnone : (OrderedDict.ofItems records).get? k = none := by
      rw [OrderedDict.get?_eq_none_iff, OrderedDict.keys, OrderedDict.items_ofItems _ hn']
      exact (List.nodup_cons.mp hn).1
    have hrest := ih hn' fun key hm ↦ hk key (List.mem_cons_of_mem _ hm)
    rw [List.map_cons, List.sum_cons, ← hrest, Nat.add_comm]
    apply sum_map_update nodup_histogramKeys (hk k List.mem_cons_self)
    · simp only [get?_ofItems_cons hn, if_true, hnone, Option.getD_some, Option.getD_none,
        List.length_nil, Nat.zero_add]
    · intro key hne
      simp only [get?_ofItems_cons hn, hne, if_false]

/-- All observations of a tally of the vocabulary. -/
def Tally.observations (t : Tally) : Nat := (Tally.histogramKeys.map t.observed).sum

private theorem observations_append (x y : Tally) :
    (x.append y).observations = x.observations + y.observations := by
  symm
  apply Tally.sum_map_add_eq
  intro key
  rw [Tally.observed_append]

private theorem observations_cut (x : Tally) :
    x.cut.observations + x.overflow = x.observations := by
  apply Tally.sum_map_add_eq
  intro key
  rw [Tally.observed_cut]
  omega

private theorem tallyAll_append (payloads : List Json) (x : Tally) :
    (payloads.map tally).foldl Tally.append x = x.append (tallyAll payloads) := by
  induction payloads generalizing x with
  | nil =>
    ext1 <;> funext key <;> simp [tallyAll, Tally.append, Tally.empty]
  | cons p payloads ih =>
    simp only [tallyAll, List.map_cons, List.foldl_cons, Tally.empty_append]
    rw [ih, ih, Tally.append_assoc]

private theorem tallyAll_cons (p : Json) (payloads : List Json) :
    tallyAll (p :: payloads) = (tally p).append (tallyAll payloads) := by
  rw [tallyAll, List.map_cons, List.foldl_cons, Tally.empty_append, tallyAll_append]

private theorem counters_tallyAll (payloads : List Json) (key : MetricKey) :
    ((tallyAll payloads).counters key).getD 0 =
      (payloads.map fun p ↦ counterValue p key).sum := by
  induction payloads with
  | nil => rfl
  | cons p payloads ih =>
    rw [tallyAll_cons, Tally.counters_append, getD_addOption, ih, List.map_cons, List.sum_cons]
    rfl

private theorem histograms_tallyAll (payloads : List Json) (key : MetricKey) :
    ((tallyAll payloads).histograms key).getD [] =
      payloads.flatMap fun p ↦ histogramValues p key := by
  induction payloads with
  | nil => rfl
  | cons p payloads ih =>
    rw [tallyAll_cons, List.flatMap_cons, ← ih]
    exact getD_appendOption _ _

private theorem observations_tally {p : Json} (h : validateMetricPayload p = .ok ()) :
    (tally p).observations = observationCount p := by
  obtain ⟨-, -, l, hl⟩ := validateMetricPayload_ok h
  obtain ⟨hn, hread⟩ := decodeRecords_ok hl
  have hk : ∀ key ∈ l.map Prod.fst, key ∈ Tally.histogramKeys := by
    intro key hkey
    obtain ⟨⟨key, values⟩, hm, rfl⟩ := List.mem_map.mp hkey
    obtain ⟨raw, hmetric, -⟩ := hread key values hm
    exact mem_histogramKeys (recordMetric_eq_ok hmetric)
  have hsum := sum_lengths_records hn hk
  unfold Tally.observations Tally.observed tally recordsOf observationCount
  rw [hl]
  exact hsum

private theorem observations_tallyAll {payloads : List Json}
    (hv : ∀ p ∈ payloads, validateMetricPayload p = .ok ()) :
    (tallyAll payloads).observations = (payloads.map observationCount).sum := by
  induction payloads with
  | nil =>
    have hzero : (tallyAll []).observed = fun _ ↦ 0 := rfl
    unfold Tally.observations
    generalize Tally.histogramKeys = keys
    simp [hzero]
  | cons p payloads ih =>
    rw [List.forall_mem_cons] at hv
    rw [tallyAll_cons, observations_append, observations_tally hv.1, ih hv.2, List.map_cons,
      List.sum_cons]

/-- What a successful merge says about its inputs. -/
structure Conserves (payloads : List Json) (merged : Json) : Prop where
  counters : ∀ key, key ≠ droppedKey →
    counterValue merged key = (payloads.map fun p ↦ counterValue p key).sum
  observations : observationCount merged + counterValue merged droppedKey =
    (payloads.map observationCount).sum + (payloads.map fun p ↦ counterValue p droppedKey).sum
  kept : ∀ key, histogramValues merged key =
    (payloads.flatMap fun p ↦ histogramValues p key).take maxHistogramObservations

private theorem conserves_merge {payloads : List Json}
    (hv : ∀ p ∈ payloads, validateMetricPayload p = .ok ()) {merged : Json}
    (h : mergeMetricPayloads payloads = .ok merged) : Conserves payloads merged := by
  obtain ⟨hvalid, htally⟩ := merged_valid hv h
  have hcounter : ∀ key, counterValue merged key =
      (((tallyAll payloads).cut).counters key).getD 0 := by
    intro key
    rw [← htally]
    rfl
  refine ⟨?_, ?_, ?_⟩
  · intro key hkey
    rw [hcounter, Tally.counters_cut, Tally.getD_addDropped, if_neg hkey, counters_tallyAll,
      Nat.add_zero]
  · rw [hcounter, Tally.counters_cut, Tally.getD_addDropped, if_pos rfl, counters_tallyAll,
      ← observations_tally hvalid, htally, ← observations_tallyAll hv,
      ← observations_cut (tallyAll payloads)]
    omega
  · intro key
    rw [← histograms_tallyAll, ← Tally.getD_take]
    have hmerged : histogramValues merged key =
        ((tallyAll payloads).cut.histograms key).getD [] := by
      rw [← htally]
      rfl
    exact hmerged

private theorem valid_of_foldlM {payloads : List Json} {s s' : MergeState}
    (h : payloads.foldlM mergePayload s = .ok s') :
    ∀ p ∈ payloads, validateMetricPayload p = .ok () := by
  induction payloads generalizing s with
  | nil => simp
  | cons p payloads ih =>
    rw [List.foldlM_cons] at h
    obtain ⟨s1, hp, h⟩ := bind_ok h
    obtain ⟨u, hvalid, -⟩ := bind_ok hp
    rw [List.forall_mem_cons]
    exact ⟨hvalid, ih h⟩

private theorem valid_of_merge_ok {payloads : List Json} {merged : Json}
    (h : mergeMetricPayloads payloads = .ok merged) :
    ∀ p ∈ payloads, validateMetricPayload p = .ok () := by
  obtain ⟨s, hfold, -⟩ := bind_ok h
  exact valid_of_foldlM hfold

/-! ### When a merge returns -/

/-- Payloads that merge: each is valid, and what they say together, once cut, keeps within the
bounds on values and records. -/
structure Mergeable (payloads : List Json) : Prop where
  valid : ∀ p ∈ payloads, validateMetricPayload p = .ok ()
  bounded : (tallyAll payloads).cut.Bounded

private theorem exists_merge_iff {payloads : List Json} :
    (∃ merged, mergeMetricPayloads payloads = .ok merged) ↔ Mergeable payloads := by
  constructor
  · rintro ⟨merged, h⟩
    have hv := valid_of_merge_ok h
    exact ⟨hv, ((mergeMetricPayloads_ok_iff hv merged).mp h).1⟩
  · exact fun h ↦ exists_payload h.valid h.bounded

/-- What an aggregation takes to return: two valid statistics of different ranks, few enough
together, and data that merge. -/
structure Aggregates (bounds : InventoryBounds) (stats other : SpoolCacheStats) : Prop where
  accumulator : stats.Valid bounds
  added : other.Valid bounds
  disjoint : ∀ report ∈ stats.reports, reportRank report ∉ other.reports.map reportRank
  few : stats.reports.length + other.reports.length ≤ maxInventoryReports
  mergeable : Mergeable [stats.data, other.data]

private theorem exists_mergedStats_iff {bounds : InventoryBounds} {self other : SpoolCacheStats} :
    (∃ merged, mergedStats bounds self other = .ok merged) ↔ Aggregates bounds self other := by
  unfold mergedStats
  constructor
  · rintro ⟨merged, h⟩
    obtain ⟨u, hself, h⟩ := bind_ok h
    obtain ⟨u', hother, h⟩ := bind_ok h
    have hself := postInit_ok_iff.mp hself
    have hother := postInit_ok_iff.mp hother
    split at h
    · cases h
    · next hshared =>
      have hdisjoint : ∀ report ∈ self.reports,
          reportRank report ∉ other.reports.map reportRank :=
        fun report hreport hrank ↦ hshared ⟨report, hreport, hrank⟩
      dsimp only at h
      rw [size_ofItems (nodup_ranks hself.ranks hother.ranks hdisjoint), List.length_append] at h
      split at h
      · cases h
      · next hfew =>
        obtain ⟨data, hmerged, -⟩ := bind_ok h
        exact ⟨hself, hother, hdisjoint, Nat.le_of_not_lt hfew, exists_merge_iff.mp ⟨data, hmerged⟩⟩
  · intro h
    obtain ⟨data, hmerged⟩ := exists_merge_iff.mpr h.mergeable
    have hshared : ¬ ∃ report ∈ self.reports, reportRank report ∈ other.reports.map reportRank :=
      fun ⟨report, hreport, hrank⟩ ↦ h.disjoint report hreport hrank
    rw [postInit_ok_iff.mpr h.accumulator, ok_bind, postInit_ok_iff.mpr h.added, ok_bind, if_neg hshared]
    dsimp only
    rw [size_ofItems (nodup_ranks h.accumulator.ranks h.added.ranks h.disjoint), List.length_append,
      if_neg (Nat.not_lt.mpr h.few), hmerged, ok_bind]
    exact ⟨_, rfl⟩

private theorem aggregate_ok_iff {bounds : InventoryBounds} {self other : SpoolCacheStats} :
    (∃ self', (aggregate bounds other).run self = .ok () self') ↔ Aggregates bounds self other := by
  rw [← exists_mergedStats_iff]
  cases h : mergedStats bounds self other with
  | ok merged =>
    obtain ⟨data, reports⟩ := merged
    exact ⟨fun _ ↦ ⟨_, rfl⟩, fun _ ↦ ⟨_, aggregate_of_ok h⟩⟩
  | error e =>
    rw [aggregate_of_error h]
    exact ⟨fun ⟨_, h'⟩ ↦ (by cases h'), fun ⟨_, h'⟩ ↦ (by cases h')⟩

/-- Merging is associative, raising included, and returns exactly for valid payloads that keep
within the bounds together. A merge adds every counter, keeps the first observations of every
histogram and counts the others. An aggregation of valid statistics of different ranks is a merge,
and otherwise raises and changes nothing. -/
theorem merge_assoc_and_conserves (bounds : InventoryBounds) :
    (∀ a b c, validateMetricPayload a = .ok () → validateMetricPayload b = .ok () →
      validateMetricPayload c = .ok () →
      (mergeMetricPayloads [a, b] >>= fun ab ↦ mergeMetricPayloads [ab, c]).toOption =
          (mergeMetricPayloads [a, b, c]).toOption ∧
        (mergeMetricPayloads [b, c] >>= fun bc ↦ mergeMetricPayloads [a, bc]).toOption =
          (mergeMetricPayloads [a, b, c]).toOption) ∧
    (∀ payloads, (∃ merged, mergeMetricPayloads payloads = .ok merged) ↔ Mergeable payloads) ∧
    (∀ payloads merged, mergeMetricPayloads payloads = .ok merged → Conserves payloads merged) ∧
    ∀ self other : SpoolCacheStats,
      ((∃ self', (aggregate bounds other).run self = .ok () self') ↔
        Aggregates bounds self other) ∧
      ((∃ self', (aggregate bounds other).run self = .ok () self' ∧
        mergeMetricPayloads [self.data, other.data] = .ok self'.data ∧
        self'.reports.Perm (self.reports ++ other.reports) ∧
        self'.reports.Pairwise fun a b ↦ reportRank a ≤ reportRank b) ∨
      ∃ e, (aggregate bounds other).run self = .error e self) := by
  refine ⟨?_, fun _ ↦ exists_merge_iff, ?_, fun self other ↦ ?_⟩
  · intro a b c ha hb hc
    exact ⟨merge_merge_left ha hb hc, merge_merge_right ha hb hc⟩
  · intro payloads merged h
    exact conserves_merge (valid_of_merge_ok h) h
  · exact ⟨aggregate_ok_iff, aggregate_spec bounds self other⟩

/-- A payload with restores of one unit each. -/
def restorePayload (restores : Nat) : Json :=
  payloadJson [(⟨"spoolcache_hit_tokens_total", []⟩, 3)] []
    [(⟨"spoolcache_restore_seconds", []⟩, List.replicate restores 1)]

/-- A report of a rank that holds nothing. -/
def emptyReport (rank : Int) : RawReport :=
  ⟨some rank, some "g", some 1, some ⟨some 0, some 0, some 0, some 1, some 0, some []⟩, .none⟩

/-- Two ranks with four entries each. -/
def pairBounds : InventoryBounds := ⟨1, 4, 2, by decide, by decide, by decide⟩

private theorem valid_emptyReport {payload : Json} (h : validateMetricPayload payload = .ok ())
    {rank : Int} (hrank : ∃ r, validateInventoryReport pairBounds (emptyReport rank) = .ok r) :
    SpoolCacheStats.Valid pairBounds ⟨payload, [emptyReport rank]⟩ := by
  have hfew : 1 ≤ maxInventoryReports := by decide
  refine ⟨h, hfew, ?_, List.nodup_singleton _⟩
  intro report hreport
  rw [List.mem_singleton.mp hreport]
  exact hrank

/-- The result on three payloads with 4200 restores, of which 104 are dropped, and on the statistics
of two ranks. -/
theorem merge_assoc_and_conserves_restores :
    ∃ ab merged,
      mergeMetricPayloads [restorePayload 4000, restorePayload 100] = .ok ab ∧
      mergeMetricPayloads [ab, restorePayload 100] = .ok merged ∧
      mergeMetricPayloads [restorePayload 4000, restorePayload 100, restorePayload 100] =
        .ok merged ∧
      Conserves [restorePayload 4000, restorePayload 100, restorePayload 100] merged ∧
      counterValue merged droppedKey = 104 ∧
      ∃ self', (aggregate pairBounds ⟨restorePayload 100, [emptyReport 0]⟩).run
          ⟨restorePayload 4000, [emptyReport 1]⟩ = .ok () self' ∧
        self'.data = ab ∧ self'.reports.Perm [emptyReport 1, emptyReport 0] := by
  obtain ⟨hassoc, hexists, hconserves, haggregate⟩ := merge_assoc_and_conserves pairBounds
  have ha : validateMetricPayload (restorePayload 4000) = .ok () := by decide +kernel
  have hb : validateMetricPayload (restorePayload 100) = .ok () := by decide +kernel
  have hdropped : ((mergeMetricPayloads [restorePayload 4000, restorePayload 100,
      restorePayload 100]).map fun merged ↦ counterValue merged droppedKey) = .ok 104 := by
    decide +kernel
  cases hmerged : mergeMetricPayloads [restorePayload 4000, restorePayload 100,
      restorePayload 100] with
  | error e =>
    rw [hmerged] at hdropped
    cases hdropped
  | ok merged =>
    rw [hmerged] at hdropped
    -- a merge in two steps returns because the merge in one step does
    have hleft := (hassoc _ _ _ ha hb hb).1
    rw [hmerged] at hleft
    obtain ⟨ab, hab, hagain⟩ := bind_ok (eq_ok_of_toOption hleft)
    obtain ⟨hiff, hspec⟩ := haggregate ⟨restorePayload 4000, [emptyReport 1]⟩
      ⟨restorePayload 100, [emptyReport 0]⟩
    obtain ⟨self', hrun⟩ := hiff.mpr ⟨valid_emptyReport ha ⟨_, rfl⟩, valid_emptyReport hb ⟨_, rfl⟩,
      by decide, by decide, (hexists _).mp ⟨ab, hab⟩⟩
    refine ⟨ab, merged, hab, hagain, rfl, hconserves _ _ hmerged,
      Except.ok.inj hdropped, self', hrun, ?_⟩
    rcases hspec with ⟨self'', hrun', hdata, hperm, -⟩ | ⟨e, hrun'⟩
    · cases hrun.symm.trans hrun'
      exact ⟨Except.ok.inj (hdata.symm.trans hab), hperm⟩
    · cases hrun.symm.trans hrun'

end SpoolCache.Telemetry

import SpoolCache.Telemetry.Merge

/-!
# What a merge of payloads says

A merge succeeds exactly when the concatenation of its inputs, cut at the end, keeps within the
bounds, and it is then determined by it. So regrouping changes neither the result nor whether
there is one.
-/

namespace SpoolCache.Telemetry

open SpoolCache.Base

/-! ### Dictionaries of distinct records -/

/-- A partial map with few enough keys for a payload. -/
def Small {κ ν : Type} (f : κ → Option ν) : Prop :=
  ∀ keys : List κ, keys.Nodup → (∀ k ∈ keys, (f k).isSome = true) → keys.length ≤ maxMetricRecords

/-- A partial map with fewer keys is small too. -/
theorem Small.mono {κ ν : Type} {f g : κ → Option ν} (h : Small g)
    (hfg : ∀ k, (f k).isSome = true → (g k).isSome = true) : Small f :=
  fun keys hn hk ↦ h keys hn fun k hm ↦ hfg k (hk k hm)

section

variable {κ ν : Type} [DecidableEq κ]

/-- A lookup in records with distinct keys finds the first record or looks in the rest. -/
theorem get?_ofItems_cons {k : κ} {v : ν} {records : List (κ × ν)}
    (hn : (((k, v) :: records).map Prod.fst).Nodup) (a : κ) :
    (OrderedDict.ofItems ((k, v) :: records)).get? a =
      if a = k then some v else (OrderedDict.ofItems records).get? a := by
  have hrest : (records.map Prod.fst).Nodup := (List.nodup_cons.mp hn).2
  apply Option.ext
  intro w
  rw [OrderedDict.get?_eq_some_iff, OrderedDict.items_ofItems _ hn, List.mem_cons]
  by_cases ha : a = k
  · subst ha
    have hfresh : ∀ w, (a, w) ∉ records := by
      intro w hw
      exact (List.nodup_cons.mp hn).1 (List.mem_map.mpr ⟨(a, w), hw, rfl⟩)
    simp [hfresh, eq_comm]
  · simp only [ha, if_false, OrderedDict.get?_eq_some_iff, OrderedDict.items_ofItems _ hrest,
      Prod.mk.injEq, false_and, false_or]

/-- No record answers nothing. -/
theorem get?_ofItems_nil (a : κ) : (OrderedDict.ofItems ([] : List (κ × ν))).get? a = none := rfl

private theorem small_iff {d : OrderedDict κ ν} {f : κ → Option ν} (hf : ∀ k, d.get? k = f k) :
    Small f ↔ d.size ≤ maxMetricRecords := by
  constructor
  · intro h
    rw [← d.length_keys]
    apply h d.keys d.nodup_keys
    intro k hk
    obtain ⟨v, hv⟩ := (d.mem_keys_iff k).mp hk
    rw [← hf, hv]
    rfl
  · intro h keys hn hk
    have hsub : keys ⊆ d.keys := by
      intro k hm
      obtain ⟨v, hv⟩ := Option.isSome_iff_exists.mp (hk k hm)
      exact (d.mem_keys_iff k).mpr ⟨v, (hf k).trans hv⟩
    have hle := (List.subperm_of_subset hn hsub).length_le
    rw [d.length_keys] at hle
    omega

private theorem sortedItems_eq_of_same {κ ν : Type} [LinearOrder κ] {a b : OrderedDict κ ν}
    (h : OrderedDict.Same a b) : a.sortedItems = b.sortedItems := by
  have hmem : ∀ r, r ∈ a.sortedItems ↔ r ∈ b.sortedItems := by
    rintro ⟨k, v⟩
    rw [OrderedDict.mem_sortedItems, OrderedDict.mem_sortedItems, h k]
  have hperm : a.sortedItems.Perm b.sortedItems :=
    (List.perm_ext_iff_of_nodup (List.Nodup.of_map _ a.nodup_sortedItems_keys)
      (List.Nodup.of_map _ b.nodup_sortedItems_keys)).mpr hmem
  have hsorted : ∀ d : OrderedDict κ ν, d.sortedItems.Pairwise fun p q ↦ p.1 ≤ q.1 := fun d ↦
    List.pairwise_insertionSort _ _
  refine hperm.eq_of_pairwise ?_ (hsorted a) (hsorted b)
  rintro ⟨k, v⟩ ⟨k', v'⟩ hp hq hle hge
  cases le_antisymm hle hge
  rw [OrderedDict.mem_sortedItems] at hp hq
  rw [h k] at hp
  rw [hp] at hq
  cases hq
  rfl

end

/-! ### Loops over the records of a payload -/

private theorem addOption_some_right (x : Option Nat) (n : Nat) :
    addOption x (some n) = some (x.getD 0 + n) := by
  cases x <;> simp [addOption]

private theorem appendOption_some_right (x : Option (List Nat)) (l : List Nat) :
    appendOption x (some l) = some (x.getD [] ++ l) := by
  cases x <;> simp [appendOption]

private theorem addCounter_ok {label : String} {d d' : OrderedDict MetricKey Nat}
    {record : MetricKey × Nat} (h : addCounter label d record = .ok d') :
    (d.get? record.1).getD 0 + record.2 ≤ maxMetricValue ∧
      d' = d.set record.1 ((d.get? record.1).getD 0 + record.2) := by
  obtain ⟨total, htotal, h⟩ := bind_ok h
  cases h
  have hle := validateNumber_eq_ok htotal
  unfold numberJson validateNumber at htotal
  dsimp only at htotal
  split at htotal
  · cases htotal
  · cases htotal
    exact ⟨hle, rfl⟩

private theorem addCounter_of_le {label : String} {d : OrderedDict MetricKey Nat}
    {record : MetricKey × Nat} (h : (d.get? record.1).getD 0 + record.2 ≤ maxMetricValue) :
    addCounter label d record = .ok (d.set record.1 ((d.get? record.1).getD 0 + record.2)) := by
  unfold addCounter numberJson
  rw [validateNumber_int h, ok_bind]
  rfl

/-- Adding records returns exactly when no sum passes the bound, since partial sums are smaller. -/
theorem foldlM_addCounter (label : String) {records : List (MetricKey × Nat)}
    (hn : (records.map Prod.fst).Nodup) (d : OrderedDict MetricKey Nat) :
    (∀ d', records.foldlM (addCounter label) d = .ok d' →
      ∀ key, d'.get? key = addOption (d.get? key) ((OrderedDict.ofItems records).get? key) ∧
        (key ∈ records.map Prod.fst → (d'.get? key).getD 0 ≤ maxMetricValue)) ∧
    ((∀ key, (d.get? key).getD 0 + ((OrderedDict.ofItems records).get? key).getD 0 ≤
      maxMetricValue) → ∃ d', records.foldlM (addCounter label) d = .ok d') := by
  induction records generalizing d with
  | nil =>
    constructor
    · intro d' h key
      cases h
      simp [get?_ofItems_nil]
    · exact fun _ ↦ ⟨d, rfl⟩
  | cons record records ih =>
    obtain ⟨k, v⟩ := record
    have hn' := (List.nodup_cons.mp hn).2
    have hfresh : k ∉ records.map Prod.fst := (List.nodup_cons.mp hn).1
    have hnone : (OrderedDict.ofItems records).get? k = none := by
      rw [OrderedDict.get?_eq_none_iff, OrderedDict.keys, OrderedDict.items_ofItems _ hn']
      exact hfresh
    constructor
    · intro d' h key
      rw [List.foldlM_cons] at h
      obtain ⟨d1, hd1, h⟩ := bind_ok h
      obtain ⟨hle, rfl⟩ := addCounter_ok hd1
      obtain ⟨hget, hmax⟩ := (ih hn' _).1 d' h key
      rw [OrderedDict.get?_set] at hget
      rw [get?_ofItems_cons hn]
      by_cases hkey : key = k
      · subst hkey
        rw [if_pos rfl, hnone, addOption_none_right] at hget
        rw [if_pos rfl, addOption_some_right, hget]
        exact ⟨rfl, fun _ ↦ hle⟩
      · rw [if_neg hkey] at hget
        rw [if_neg hkey]
        refine ⟨hget, fun hm ↦ hmax ?_⟩
        rw [List.map_cons, List.mem_cons] at hm
        exact hm.resolve_left hkey
    · intro hle
      have hk := hle k
      rw [get?_ofItems_cons hn, if_pos rfl, Option.getD_some] at hk
      rw [List.foldlM_cons, addCounter_of_le hk, ok_bind]
      refine (ih hn' _).2 fun key ↦ ?_
      have hkey := hle key
      rw [get?_ofItems_cons hn] at hkey
      rw [OrderedDict.get?_set]
      split
      · next he =>
        subst he
        rw [hnone, Option.getD_some, Option.getD_none, Nat.add_zero]
        exact hk
      · next he =>
        rw [if_neg he] at hkey
        exact hkey

private theorem get?_foldl_set {records : List (GaugeKey × Nat)} (hn : (records.map Prod.fst).Nodup)
    (d : OrderedDict GaugeKey Nat) (key : GaugeKey) :
    (records.foldl (fun gauges record ↦ gauges.set record.1 record.2) d).get? key =
      ((OrderedDict.ofItems records).get? key).or (d.get? key) := by
  induction records generalizing d with
  | nil => rfl
  | cons record records ih =>
    obtain ⟨k, v⟩ := record
    have hn' := (List.nodup_cons.mp hn).2
    rw [List.foldl_cons, ih hn', get?_ofItems_cons hn, OrderedDict.get?_set]
    by_cases hkey : key = k
    · subst hkey
      have hnone : (OrderedDict.ofItems records).get? key = none := by
        rw [OrderedDict.get?_eq_none_iff, OrderedDict.keys, OrderedDict.items_ofItems _ hn']
        exact (List.nodup_cons.mp hn).1
      rw [if_pos rfl, if_pos rfl, hnone]
      rfl
    · rw [if_neg hkey, if_neg hkey]

/-- Histograms that are kept up to the bound, with the observations that are not. -/
structure Keeps (state : OrderedDict MetricKey (List Nat) × Nat)
    (full : MetricKey → Option (List Nat)) : Prop where
  kept : ∀ key, state.1.get? key = (full key).map (List.take maxHistogramObservations)
  overflow : state.2 = (Tally.histogramKeys.map fun key ↦
    ((full key).getD []).length - maxHistogramObservations).sum

/-- A change of one value changes the total by as much. -/
theorem sum_map_update {keys : List MetricKey} (hn : keys.Nodup) {k : MetricKey} (hk : k ∈ keys)
    {f g : MetricKey → Nat} {delta : Nat} (hfg : g k = f k + delta)
    (hother : ∀ key, key ≠ k → g key = f key) : (keys.map g).sum = (keys.map f).sum + delta := by
  induction keys with
  | nil => cases hk
  | cons a keys ih =>
    rw [List.nodup_cons] at hn
    simp only [List.map_cons, List.sum_cons]
    by_cases ha : a = k
    · subst ha
      have hrest : keys.map g = keys.map f := by
        apply List.map_congr_left
        intro key hm
        exact hother key fun he ↦ hn.1 (he ▸ hm)
      rw [hrest, hfg]
      omega
    · have hin : k ∈ keys := (List.mem_cons.mp hk).resolve_left (Ne.symm ha)
      rw [ih hn.2 hin, hother a ha]
      omega

/-- The keys of histograms are distinct. -/
theorem nodup_histogramKeys : Tally.histogramKeys.Nodup := by decide +kernel

private theorem take_append_remaining (n : Nat) (a b : List Nat) :
    a.take n ++ b.take (n - (a.take n).length) = (a ++ b).take n := by
  rw [List.take_append, List.length_take]
  congr 2
  omega

private theorem keeps_extendHistogram {state : OrderedDict MetricKey (List Nat) × Nat}
    {full : MetricKey → Option (List Nat)} (h : Keeps state full) {record : MetricKey × List Nat}
    (hk : record.1 ∈ Tally.histogramKeys) :
    Keeps (extendHistogram state record) fun key ↦
      if key = record.1 then some ((full key).getD [] ++ record.2) else full key := by
  have hvalues : (state.1.get? record.1).getD [] =
      ((full record.1).getD []).take maxHistogramObservations := by
    rw [h.kept, Tally.getD_take]
  unfold extendHistogram
  rw [hvalues]
  dsimp only
  constructor
  · intro key
    dsimp only
    rw [OrderedDict.get?_set]
    split
    · next he =>
      rw [he, Option.map_some, take_append_remaining]
    · exact h.kept key
  · dsimp only
    rw [h.overflow]
    symm
    apply sum_map_update nodup_histogramKeys hk
    · rw [if_pos rfl, Option.getD_some, List.length_append, List.length_take]
      omega
    · intro key hne
      rw [if_neg hne]

private theorem keeps_foldl {records : List (MetricKey × List Nat)}
    (hn : (records.map Prod.fst).Nodup)
    (hk : ∀ key ∈ records.map Prod.fst, key ∈ Tally.histogramKeys)
    {state : OrderedDict MetricKey (List Nat) × Nat} {full : MetricKey → Option (List Nat)}
    (h : Keeps state full) :
    Keeps (records.foldl extendHistogram state) fun key ↦
      appendOption (full key) ((OrderedDict.ofItems records).get? key) := by
  induction records generalizing state full with
  | nil =>
    have heq : (fun key ↦ appendOption (full key)
        ((OrderedDict.ofItems ([] : List (MetricKey × List Nat))).get? key)) = full := by
      funext key
      rw [get?_ofItems_nil, appendOption_none_right]
    rw [heq]
    exact h
  | cons record records ih =>
    obtain ⟨k, l⟩ := record
    have hn' := (List.nodup_cons.mp hn).2
    have hnone : (OrderedDict.ofItems records).get? k = none := by
      rw [OrderedDict.get?_eq_none_iff, OrderedDict.keys, OrderedDict.items_ofItems _ hn']
      exact (List.nodup_cons.mp hn).1
    have hstep : Keeps (extendHistogram state (k, l)) fun key ↦
        if key = k then some ((full key).getD [] ++ l) else full key :=
      keeps_extendHistogram h (hk k List.mem_cons_self)
    have hrest := ih hn' (fun key hm ↦ hk key (List.mem_cons_of_mem _ hm)) hstep
    have heq : (fun key ↦ appendOption (full key)
        ((OrderedDict.ofItems ((k, l) :: records)).get? key)) =
        fun key ↦ appendOption (if key = k then some ((full key).getD [] ++ l) else full key)
          ((OrderedDict.ofItems records).get? key) := by
      funext key
      rw [get?_ofItems_cons hn]
      by_cases hkey : key = k
      · subst hkey
        rw [if_pos rfl, if_pos rfl, hnone, appendOption_some_right, appendOption_none_right]
      · rw [if_neg hkey, if_neg hkey]
    rw [heq]
    exact hrest

/-! ### Payloads as tallies -/

/-- The records of a payload as a dictionary; an unreadable payload has none. -/
def recordsOf {κ ν : Type} [DecidableEq κ] (decoded : Except PyError (List (κ × ν))) :
    OrderedDict κ ν := .ofItems (decoded.toOption.getD [])

/-- What a payload says. -/
def tally (payload : Json) : Tally where
  counters key := (recordsOf (decodeCounters payload)).get? key
  gauges key := (recordsOf (decodeGauges payload)).get? key
  histograms key := (recordsOf (decodeHistograms payload)).get? key

/-- A tally of the vocabulary. -/
structure Tally.WellFormed (t : Tally) : Prop where
  counters : ∀ key v, t.counters key = some v → ValidMetric .counter key
  gauges : ∀ key v, t.gauges key = some v →
    ValidMetric .gauge key.metric ∧ ValidSource key.source ∧ v ≤ maxMetricValue
  histograms : ∀ key l, t.histograms key = some l →
    ValidMetric .histogram key ∧ ∀ n ∈ l, n ≤ maxMetricValue

/-- The three kinds of records of a valid payload decode. -/
theorem validateMetricPayload_ok {payload : Json} (h : validateMetricPayload payload = .ok ()) :
    (∃ c, decodeCounters payload = .ok c) ∧ (∃ g, decodeGauges payload = .ok g) ∧
      ∃ l, decodeHistograms payload = .ok l := by
  unfold validateMetricPayload at h
  split at h
  · cases h
  · split at h
    · cases h
    · split at h
      · cases h
      · obtain ⟨c, hc, h⟩ := bind_ok h
        obtain ⟨g, hg, h⟩ := bind_ok h
        obtain ⟨l, hl, -⟩ := bind_ok h
        exact ⟨⟨c, hc⟩, ⟨g, hg⟩, ⟨l, hl⟩⟩

private theorem mem_of_get?_recordsOf {κ ν : Type} [DecidableEq κ]
    {decoded : Except PyError (List (κ × ν))}
    {records : List (κ × ν)} (h : decoded = .ok records) (hn : (records.map Prod.fst).Nodup) {k : κ}
    {v : ν} (hget : (recordsOf decoded).get? k = some v) : (k, v) ∈ records := by
  subst h
  rw [recordsOf, OrderedDict.get?_eq_some_iff] at hget
  change (k, v) ∈ (OrderedDict.ofItems records).items at hget
  rwa [OrderedDict.items_ofItems _ hn] at hget

private theorem wellFormed_tally {payload : Json} (h : validateMetricPayload payload = .ok ()) :
    (tally payload).WellFormed := by
  obtain ⟨⟨c, hc⟩, ⟨g, hg⟩, ⟨l, hl⟩⟩ := validateMetricPayload_ok h
  refine ⟨?_, ?_, ?_⟩
  · intro key v hv
    obtain ⟨hn, hread⟩ := decodeRecords_ok hc
    obtain ⟨raw, hkey, -⟩ := hread key v (mem_of_get?_recordsOf hc hn hv)
    exact recordMetric_eq_ok hkey
  · intro key v hv
    obtain ⟨hn, hread⟩ := decodeRecords_ok hg
    obtain ⟨raw, hkey, hvalue⟩ := hread key v (mem_of_get?_recordsOf hg hn hv)
    obtain ⟨metric, hmetric, hkey⟩ := bind_ok hkey
    obtain ⟨source, hsource, hkey⟩ := bind_ok hkey
    cases hkey
    exact ⟨recordMetric_eq_ok hmetric, validateSource_eq_ok hsource, validateNumber_eq_ok hvalue⟩
  · intro key values hv
    obtain ⟨hn, hread⟩ := decodeRecords_ok hl
    obtain ⟨raw, hkey, hvalues⟩ := hread key values (mem_of_get?_recordsOf hl hn hv)
    exact ⟨recordMetric_eq_ok hkey, (recordValues_eq_ok hvalues).2⟩

private theorem Tally.WellFormed.append {x y : Tally} (hx : x.WellFormed) (hy : y.WellFormed) :
    (x.append y).WellFormed := by
  refine ⟨?_, ?_, ?_⟩
  · intro key v hv
    have hsome : (addOption (x.counters key) (y.counters key)).isSome = true := by
      rw [← Tally.counters_append, hv]
      rfl
    rw [isSome_addOption, Bool.or_eq_true] at hsome
    rcases hsome with h | h
    · obtain ⟨w, hw⟩ := Option.isSome_iff_exists.mp h
      exact hx.counters key w hw
    · obtain ⟨w, hw⟩ := Option.isSome_iff_exists.mp h
      exact hy.counters key w hw
  · intro key v hv
    rw [Tally.gauges_append] at hv
    cases hg : y.gauges key with
    | none =>
      rw [hg, Option.none_or] at hv
      exact hx.gauges key v hv
    | some w =>
      rw [hg, Option.some_or] at hv
      cases hv
      exact hy.gauges key _ hg
  · intro key l hl
    change appendOption (x.histograms key) (y.histograms key) = some l at hl
    cases hx' : x.histograms key with
    | none =>
      rw [hx', appendOption_none_left] at hl
      exact hy.histograms key l hl
    | some a =>
      obtain ⟨hvalid, ha⟩ := hx.histograms key a hx'
      rw [hx', appendOption, Option.some.injEq] at hl
      refine ⟨hvalid, ?_⟩
      intro n hn
      rw [← hl, List.mem_append] at hn
      rcases hn with hn | hn
      · exact ha n hn
      · cases hy' : y.histograms key with
        | none =>
          rw [hy'] at hn
          cases hn
        | some b =>
          rw [hy'] at hn
          exact (hy.histograms key b hy').2 n hn

private theorem validMetric_droppedKey : ValidMetric .counter droppedKey :=
  ⟨labelled .counter ["histogram"], by rfl, rfl, by decide⟩

private theorem Tally.WellFormed.cut {x : Tally} (h : x.WellFormed) : x.cut.WellFormed := by
  refine ⟨?_, h.gauges, ?_⟩
  · intro key v hv
    rw [Tally.counters_cut, Tally.addDropped] at hv
    split at hv
    · next hd =>
      rw [hd.2]
      exact validMetric_droppedKey
    · exact h.counters key v hv
  · intro key l hl
    obtain ⟨full, hfull, rfl⟩ := Option.map_eq_some_iff.mp hl
    obtain ⟨hvalid, hall⟩ := h.histograms key full hfull
    exact ⟨hvalid, fun n hn ↦ hall n (List.mem_of_mem_take hn)⟩

/-- Every valid metric for histograms is among the keys. -/
theorem mem_histogramKeys {key : MetricKey} (h : ValidMetric .histogram key) :
    key ∈ Tally.histogramKeys := by
  obtain ⟨definition, hlookup, hkind, hlabels⟩ := h
  obtain ⟨before, after, happ, -⟩ := List.lookup_eq_some_iff.mp hlookup
  unfold Tally.histogramKeys
  rw [List.mem_flatMap]
  refine ⟨(key.name, definition), ?_, ?_⟩
  · rw [happ]
    simp
  · rw [if_pos hkind, List.mem_map]
    exact ⟨key.labels, hlabels, rfl⟩

/-! ### The merge loop -/

/-- The state of the loop after payloads that say `t` together. -/
structure Represents (s : MergeState) (t : Tally) : Prop where
  counters : ∀ key, s.counters.get? key = t.counters key
  bounded : ∀ key, (t.counters key).getD 0 ≤ maxMetricValue
  gauges : ∀ key, s.gauges.get? key = t.gauges key
  histograms : Keeps (s.histograms, s.overflow) t.histograms

/-- The loop starts with nothing said. -/
theorem represents_empty : Represents .empty .empty := by
  have hsum : ∀ keys : List MetricKey,
      (keys.map fun _ ↦ ([] : List Nat).length - maxHistogramObservations).sum = 0 := by
    intro keys
    induction keys with
    | nil => rfl
    | cons key keys _ => simp
  exact ⟨fun _ ↦ rfl, fun _ ↦ Nat.zero_le _, fun _ ↦ rfl, fun _ ↦ rfl, (hsum _).symm⟩

private theorem mergePayload_spec {s : MergeState} {t : Tally} {payload : Json}
    (hs : Represents s t) (hv : validateMetricPayload payload = .ok ()) :
    (∀ s', mergePayload s payload = .ok s' → Represents s' (t.append (tally payload))) ∧
      ((∀ key, ((t.append (tally payload)).counters key).getD 0 ≤ maxMetricValue) →
        ∃ s', mergePayload s payload = .ok s') := by
  obtain ⟨⟨c, hc⟩, ⟨g, hg⟩, ⟨l, hl⟩⟩ := validateMetricPayload_ok hv
  have hcn := (decodeRecords_ok hc).1
  have hgn := (decodeRecords_ok hg).1
  have hln := (decodeRecords_ok hl).1
  have hwf := wellFormed_tally hv
  have hcounters : ∀ key, (tally payload).counters key = (OrderedDict.ofItems c).get? key := by
    intro key
    simp only [tally, recordsOf, hc]
    rfl
  have hgauges : ∀ key, (tally payload).gauges key = (OrderedDict.ofItems g).get? key := by
    intro key
    simp only [tally, recordsOf, hg]
    rfl
  have hhistograms : ∀ key, (tally payload).histograms key = (OrderedDict.ofItems l).get? key := by
    intro key
    simp only [tally, recordsOf, hl]
    rfl
  obtain ⟨hsum, hexists⟩ := foldlM_addCounter "merged counter total" hcn s.counters
  unfold mergePayload
  rw [hv, ok_bind, hc, ok_bind]
  constructor
  · intro s' h
    obtain ⟨counters, hfold, h⟩ := bind_ok h
    rw [hg, ok_bind, hl, ok_bind] at h
    cases h
    have hfinal := hsum counters hfold
    refine ⟨?_, ?_, ?_, ?_⟩
    · intro key
      rw [Tally.counters_append, hcounters, ← hs.counters key]
      exact (hfinal key).1
    · intro key
      have hget : counters.get? key = (t.append (tally payload)).counters key := by
        rw [Tally.counters_append, hcounters, ← hs.counters key]
        exact (hfinal key).1
      by_cases hm : key ∈ c.map Prod.fst
      · rw [← hget]
        exact (hfinal key).2 hm
      · have hnone : (OrderedDict.ofItems c).get? key = none := by
          rw [OrderedDict.get?_eq_none_iff, OrderedDict.keys, OrderedDict.items_ofItems _ hcn]
          exact hm
        rw [Tally.counters_append, hcounters, hnone, addOption_none_right]
        exact hs.bounded key
    · intro key
      dsimp only
      rw [get?_foldl_set hgn, Tally.gauges_append, hgauges, ← hs.gauges key]
    · have hkeys : ∀ key ∈ l.map Prod.fst, key ∈ Tally.histogramKeys := by
        intro key hm
        obtain ⟨⟨k, values⟩, hmem, rfl⟩ := List.mem_map.mp hm
        obtain ⟨raw, hkey, -⟩ := (decodeRecords_ok hl).2 k values hmem
        exact mem_histogramKeys (recordMetric_eq_ok hkey)
      have hkeeps := keeps_foldl hln hkeys hs.histograms
      have heq : (fun key ↦ appendOption (t.histograms key) ((OrderedDict.ofItems l).get? key)) =
          (t.append (tally payload)).histograms := by
        funext key
        rw [← hhistograms]
        rfl
      rw [heq] at hkeeps
      exact hkeeps
  · intro hle
    have hle' : ∀ key, (s.counters.get? key).getD 0 +
        ((OrderedDict.ofItems c).get? key).getD 0 ≤ maxMetricValue := by
      intro key
      have h := hle key
      rw [Tally.counters_append, getD_addOption, hcounters] at h
      rw [hs.counters key]
      exact h
    obtain ⟨counters, hfold⟩ := hexists hle'
    rw [hfold, ok_bind, hg, ok_bind, hl, ok_bind]
    exact ⟨_, rfl⟩

/-- What a list of payloads says together. -/
def tallyAll (payloads : List Json) : Tally := (payloads.map tally).foldl Tally.append .empty

private theorem getD_counters_le_foldl (t : Tally) (ts : List Tally) (key : MetricKey) :
    (t.counters key).getD 0 ≤ ((ts.foldl Tally.append t).counters key).getD 0 := by
  induction ts generalizing t with
  | nil => exact Nat.le_refl _
  | cons u ts ih =>
    have h := ih (t.append u)
    rw [Tally.counters_append, getD_addOption] at h
    rw [List.foldl_cons]
    omega

/-- The loop adds up valid payloads, and returns when no counter of the sum overflows. -/
theorem foldlM_mergePayload {payloads : List Json}
    (hv : ∀ p ∈ payloads, validateMetricPayload p = .ok ()) {s : MergeState} {t : Tally}
    (hs : Represents s t) :
    (∀ s', payloads.foldlM mergePayload s = .ok s' →
      Represents s' ((payloads.map tally).foldl Tally.append t)) ∧
      ((∀ key, (((payloads.map tally).foldl Tally.append t).counters key).getD 0 ≤
        maxMetricValue) → ∃ s', payloads.foldlM mergePayload s = .ok s') := by
  induction payloads generalizing s t with
  | nil =>
    constructor
    · intro s' h
      cases h
      exact hs
    · exact fun _ ↦ ⟨s, rfl⟩
  | cons payload payloads ih =>
    rw [List.forall_mem_cons] at hv
    obtain ⟨hrep, hexists⟩ := mergePayload_spec hs hv.1
    rw [List.foldlM_cons, List.map_cons, List.foldl_cons]
    constructor
    · intro s' h
      obtain ⟨s1, hs1, h⟩ := bind_ok h
      exact (ih hv.2 (hrep s1 hs1)).1 s' h
    · intro hle
      obtain ⟨s1, hs1⟩ := hexists fun key ↦
        Nat.le_trans (getD_counters_le_foldl _ (payloads.map tally) key) (hle key)
      rw [hs1, ok_bind]
      exact (ih hv.2 (hrep s1 hs1)).2 hle

/-! ### The merged payload -/

/-- The bounds on a tally that is written as a payload. -/
structure Tally.Bounded (t : Tally) : Prop where
  counters : ∀ key, (t.counters key).getD 0 ≤ maxMetricValue
  fewCounters : Small t.counters
  fewGauges : Small t.gauges
  fewHistograms : Small t.histograms

/-- The payload that says `t`, with its records in order. -/
def IsPayload (payload : Json) (t : Tally) : Prop :=
  ∃ (c : OrderedDict MetricKey Nat) (g : OrderedDict GaugeKey Nat)
    (l : OrderedDict MetricKey (List Nat)),
    (∀ key, c.get? key = t.counters key) ∧ (∀ key, g.get? key = t.gauges key) ∧
      (∀ key, l.get? key = t.histograms key) ∧
      payload = payloadJson c.sortedItems g.sortedItems l.sortedItems

private theorem IsPayload.unique {p q : Json} {t : Tally} (hp : IsPayload p t)
    (hq : IsPayload q t) :
    p = q := by
  obtain ⟨c, g, l, hc, hg, hl, rfl⟩ := hp
  obtain ⟨c', g', l', hc', hg', hl', rfl⟩ := hq
  rw [sortedItems_eq_of_same fun key ↦ (hc key).trans (hc' key).symm,
    sortedItems_eq_of_same fun key ↦ (hg key).trans (hg' key).symm,
    sortedItems_eq_of_same fun key ↦ (hl key).trans (hl' key).symm]

section

variable {c : OrderedDict MetricKey Nat} {g : OrderedDict GaugeKey Nat}
  {l : OrderedDict MetricKey (List Nat)} {t : Tally}

private theorem decodeCounters_payloadJson (hc : ∀ key, c.get? key = t.counters key)
    (hwf : t.WellFormed) (hb : ∀ key, (t.counters key).getD 0 ≤ maxMetricValue)
    (gauges : List (GaugeKey × Nat)) (histograms : List (MetricKey × List Nat)) :
    decodeCounters (payloadJson c.sortedItems gauges histograms) =
      if maxMetricRecords < c.size then
        .error (.valueError "metric payload record count exceeds the fixed bound")
      else .ok c.sortedItems := by
  have hfield : (payloadJson c.sortedItems gauges histograms).field? MetricKind.counter.value =
      some (.arr (c.sortedItems.map counterJson)) := by
    simp [payloadJson, Json.field?, MetricKind.value]
  rw [← c.length_sortedItems]
  refine decodeRecords_map hfield c.nodup_sortedItems_keys ?_
  rintro ⟨key, v⟩ hm
  have hget : t.counters key = some v := (hc key).symm.trans ((c.mem_sortedItems key v).mp hm)
  have hv : v ≤ maxMetricValue := by
    have h := hb key
    rwa [hget] at h
  refine ⟨recordMetric_counterJson (hwf.counters key v hget), ?_⟩
  have hvalue : (counterJson (key, v)).field? "value" = some (.int v) := by
    simp [counterJson, Json.field?]
  unfold recordValue
  rw [hvalue, Option.getD_some, validateNumber_int hv]

private theorem decodeGauges_payloadJson (hg : ∀ key, g.get? key = t.gauges key)
    (hwf : t.WellFormed)
    (counters : List (MetricKey × Nat)) (histograms : List (MetricKey × List Nat)) :
    decodeGauges (payloadJson counters g.sortedItems histograms) =
      if maxMetricRecords < g.size then
        .error (.valueError "metric payload record count exceeds the fixed bound")
      else .ok g.sortedItems := by
  have hfield : (payloadJson counters g.sortedItems histograms).field? MetricKind.gauge.value =
      some (.arr (g.sortedItems.map gaugeJson)) := by
    simp [payloadJson, Json.field?, MetricKind.value]
  rw [← g.length_sortedItems]
  refine decodeRecords_map hfield g.nodup_sortedItems_keys ?_
  rintro ⟨key, v⟩ hm
  have hget : t.gauges key = some v := (hg key).symm.trans ((g.mem_sortedItems key v).mp hm)
  obtain ⟨hmetric, hsource, hv⟩ := hwf.gauges key v hget
  refine ⟨recordGauge_gaugeJson hmetric hsource, ?_⟩
  have hvalue : (gaugeJson (key, v)).field? "value" = some (.int v) := by
    simp [gaugeJson, Json.field?]
  unfold recordValue
  rw [hvalue, Option.getD_some, validateNumber_int hv]

private theorem decodeHistograms_payloadJson (hl : ∀ key, l.get? key = t.histograms key)
    (hwf : t.WellFormed) (hlen : ∀ key values, t.histograms key = some values →
      values.length ≤ maxHistogramObservations)
    (counters : List (MetricKey × Nat)) (gauges : List (GaugeKey × Nat)) :
    decodeHistograms (payloadJson counters gauges l.sortedItems) =
      if maxMetricRecords < l.size then
        .error (.valueError "metric payload record count exceeds the fixed bound")
      else .ok l.sortedItems := by
  have hfield : (payloadJson counters gauges l.sortedItems).field? MetricKind.histogram.value =
      some (.arr (l.sortedItems.map histogramJson)) := by
    simp [payloadJson, Json.field?, MetricKind.value]
  rw [← l.length_sortedItems]
  refine decodeRecords_map hfield l.nodup_sortedItems_keys ?_
  rintro ⟨key, values⟩ hm
  have hget : t.histograms key = some values :=
    (hl key).symm.trans ((l.mem_sortedItems key values).mp hm)
  obtain ⟨hmetric, hv⟩ := hwf.histograms key values hget
  exact ⟨recordMetric_histogramJson hmetric, recordValues_histogramJson (hlen key values hget) hv⟩

private theorem get?_recordsOf_sortedItems {κ ν : Type} [LinearOrder κ] (d : OrderedDict κ ν)
    (key : κ) :
    (recordsOf (.ok d.sortedItems)).get? key = d.get? key :=
  d.same_ofItems_sortedItems key

/-- A payload of a bounded tally is valid and says that tally; it is valid only then. -/
theorem validate_payloadJson (hc : ∀ key, c.get? key = t.counters key)
    (hg : ∀ key, g.get? key = t.gauges key) (hl : ∀ key, l.get? key = t.histograms key)
    (hwf : t.WellFormed) (hb : ∀ key, (t.counters key).getD 0 ≤ maxMetricValue)
    (hlen : ∀ key values, t.histograms key = some values →
      values.length ≤ maxHistogramObservations) :
    (validateMetricPayload (payloadJson c.sortedItems g.sortedItems l.sortedItems) = .ok () ↔
      t.Bounded) ∧
    (t.Bounded → tally (payloadJson c.sortedItems g.sortedItems l.sortedItems) = t) := by
  have hdc := decodeCounters_payloadJson hc hwf hb g.sortedItems l.sortedItems
  have hdg := decodeGauges_payloadJson hg hwf c.sortedItems l.sortedItems
  have hdl := decodeHistograms_payloadJson hl hwf hlen c.sortedItems g.sortedItems
  have hfields : (payloadJson c.sortedItems g.sortedItems l.sortedItems).hasFields
      ["schema", "counters", "gauges", "histograms"] = true := by
    simp [payloadJson, Json.hasFields]
  have hschema : (payloadJson c.sortedItems g.sortedItems l.sortedItems).textField? "schema" =
      some metricPayloadSchema := by
    simp [payloadJson, Json.textField?, Json.field?]
  have hmapping : isMapping (payloadJson c.sortedItems g.sortedItems l.sortedItems) = true := rfl
  have hvalidate : validateMetricPayload (payloadJson c.sortedItems g.sortedItems l.sortedItems) =
      (do
        let _ ← decodeCounters (payloadJson c.sortedItems g.sortedItems l.sortedItems)
        let _ ← decodeGauges (payloadJson c.sortedItems g.sortedItems l.sortedItems)
        let _ ← decodeHistograms (payloadJson c.sortedItems g.sortedItems l.sortedItems)
        pure ()) := by
    unfold validateMetricPayload
    rw [hmapping, hfields, hschema]
    rfl
  constructor
  · rw [hvalidate]
    constructor
    · intro h
      obtain ⟨rc, hrc, h⟩ := bind_ok h
      obtain ⟨rg, hrg, h⟩ := bind_ok h
      obtain ⟨rl, hrl, -⟩ := bind_ok h
      have few : ∀ {κ ν : Type} {d : OrderedDict κ ν} {records r : List (κ × ν)},
          (if maxMetricRecords < d.size then
            (.error (.valueError "metric payload record count exceeds the fixed bound") :
              Except PyError (List (κ × ν)))
          else .ok records) = .ok r → d.size ≤ maxMetricRecords := by
        intro κ ν d records r h
        split at h
        · cases h
        · next hle => exact Nat.le_of_not_lt hle
      exact ⟨hb, (small_iff hc).mpr (few (hdc.symm.trans hrc)),
        (small_iff hg).mpr (few (hdg.symm.trans hrg)),
        (small_iff hl).mpr (few (hdl.symm.trans hrl))⟩
    · intro hbounded
      rw [hdc, if_neg (Nat.not_lt.mpr ((small_iff hc).mp hbounded.fewCounters)), ok_bind, hdg,
        if_neg (Nat.not_lt.mpr ((small_iff hg).mp hbounded.fewGauges)), ok_bind, hdl,
        if_neg (Nat.not_lt.mpr ((small_iff hl).mp hbounded.fewHistograms)), ok_bind]
      rfl
  · intro hbounded
    unfold tally
    rw [hdc, if_neg (Nat.not_lt.mpr ((small_iff hc).mp hbounded.fewCounters)), hdg,
      if_neg (Nat.not_lt.mpr ((small_iff hg).mp hbounded.fewGauges)), hdl,
      if_neg (Nat.not_lt.mpr ((small_iff hl).mp hbounded.fewHistograms))]
    ext1
    · funext key
      exact (get?_recordsOf_sortedItems c key).trans (hc key)
    · funext key
      exact (get?_recordsOf_sortedItems g key).trans (hg key)
    · funext key
      exact (get?_recordsOf_sortedItems l key).trans (hl key)

end

/-! ### Merges -/

private theorem wellFormed_foldl {payloads : List Json}
    (hv : ∀ p ∈ payloads, validateMetricPayload p = .ok ()) {t : Tally} (ht : t.WellFormed) :
    ((payloads.map tally).foldl Tally.append t).WellFormed := by
  induction payloads generalizing t with
  | nil => exact ht
  | cons payload payloads ih =>
    rw [List.forall_mem_cons] at hv
    exact ih hv.2 (ht.append (wellFormed_tally hv.1))

private theorem wellFormed_empty : Tally.empty.WellFormed :=
  ⟨fun _ _ h ↦ (by cases h), fun _ _ h ↦ (by cases h), fun _ _ h ↦ (by cases h)⟩

private theorem length_histograms_cut (x : Tally) (key : MetricKey) (values : List Nat)
    (h : x.cut.histograms key = some values) : values.length ≤ maxHistogramObservations := by
  obtain ⟨full, -, rfl⟩ := Option.map_eq_some_iff.mp h
  rw [List.length_take]
  exact Nat.min_le_left _ _

/-- The counters of the loop with the observations that do not fit. -/
theorem addOverflow_spec {s : MergeState} {t : Tally} (hs : Represents s t) :
    (∀ c, addOverflow s = .ok c →
      (∀ key, c.get? key = t.cut.counters key) ∧
        ∀ key, (t.cut.counters key).getD 0 ≤ maxMetricValue) ∧
      ((∀ key, (t.cut.counters key).getD 0 ≤ maxMetricValue) → ∃ c, addOverflow s = .ok c) := by
  have ho : s.overflow = t.overflow := hs.histograms.overflow
  have hcut : ∀ key, t.cut.counters key = Tally.addDropped s.overflow key (t.counters key) := by
    intro key
    rw [Tally.counters_cut, ho]
  unfold addOverflow
  split
  · next hzero =>
    have hsame : ∀ key, t.cut.counters key = t.counters key := by
      intro key
      rw [hcut, hzero, Tally.addDropped, if_neg fun h ↦ h.1 rfl]
    constructor
    · intro c hc
      cases hc
      refine ⟨fun key ↦ (hs.counters key).trans (hsame key).symm, fun key ↦ ?_⟩
      rw [hsame]
      exact hs.bounded key
    · exact fun _ ↦ ⟨_, rfl⟩
  · next hne =>
    have hdropped : t.cut.counters droppedKey =
        some ((s.counters.get? droppedKey).getD 0 + s.overflow) := by
      rw [hcut, Tally.addDropped, if_pos ⟨hne, rfl⟩, hs.counters]
    constructor
    · intro c hc
      obtain ⟨hle, rfl⟩ := addCounter_ok hc
      have hget : ∀ key, (s.counters.set droppedKey
          ((s.counters.get? droppedKey).getD 0 + s.overflow)).get? key = t.cut.counters key := by
        intro key
        rw [OrderedDict.get?_set]
        split
        · next hkey => rw [hkey, hdropped]
        · next hkey =>
          rw [hcut, Tally.addDropped, if_neg fun h ↦ hkey h.2]
          exact hs.counters key
      refine ⟨hget, fun key ↦ ?_⟩
      by_cases hkey : key = droppedKey
      · rw [hkey, hdropped]
        exact hle
      · rw [hcut, Tally.addDropped, if_neg fun h ↦ hkey h.2]
        exact hs.bounded key
    · intro hle
      have hkey := hle droppedKey
      rw [hdropped, Option.getD_some] at hkey
      exact ⟨_, addCounter_of_le hkey⟩

/-- A merge of valid payloads succeeds exactly when what they say together, cut, keeps within the
bounds; it is then the payload of that, and valid again. -/
theorem mergeMetricPayloads_ok_iff {payloads : List Json}
    (hv : ∀ p ∈ payloads, validateMetricPayload p = .ok ()) (r : Json) :
    mergeMetricPayloads payloads = .ok r ↔
      (tallyAll payloads).cut.Bounded ∧ IsPayload r (tallyAll payloads).cut := by
  have hwf : (tallyAll payloads).cut.WellFormed := (wellFormed_foldl hv wellFormed_empty).cut
  have hlen := length_histograms_cut (tallyAll payloads)
  obtain ⟨hrep, hexists⟩ := foldlM_mergePayload hv represents_empty
  have hforward : ∀ r, mergeMetricPayloads payloads = .ok r →
      (tallyAll payloads).cut.Bounded ∧ IsPayload r (tallyAll payloads).cut := by
    intro r h
    obtain ⟨s, hfold, h⟩ := bind_ok h
    obtain ⟨c, hadd, h⟩ := bind_ok h
    obtain ⟨u, hvalid, h⟩ := bind_ok h
    cases h
    have hs := hrep s hfold
    obtain ⟨hc, hb⟩ := (addOverflow_spec hs).1 c hadd
    refine ⟨?_, c, s.gauges, s.histograms, hc, hs.gauges, hs.histograms.kept, rfl⟩
    exact (validate_payloadJson hc hs.gauges hs.histograms.kept hwf hb hlen).1.mp hvalid
  refine ⟨hforward r, ?_⟩
  rintro ⟨hbounded, hpayload⟩
  have hle : ∀ key, ((tallyAll payloads).counters key).getD 0 ≤ maxMetricValue := by
    intro key
    have h := hbounded.counters key
    rw [Tally.counters_cut, Tally.getD_addDropped] at h
    omega
  obtain ⟨s, hfold⟩ := hexists hle
  have hs := hrep s hfold
  obtain ⟨c, hadd⟩ := (addOverflow_spec hs).2 hbounded.counters
  obtain ⟨hc, hb⟩ := (addOverflow_spec hs).1 c hadd
  have hvalid : validateMetricPayload
      (payloadJson c.sortedItems s.gauges.sortedItems s.histograms.sortedItems) = .ok () :=
    (validate_payloadJson hc hs.gauges hs.histograms.kept hwf hb hlen).1.mpr hbounded
  have hmerge : mergeMetricPayloads payloads =
      .ok (payloadJson c.sortedItems s.gauges.sortedItems s.histograms.sortedItems) := by
    unfold mergeMetricPayloads
    rw [hfold, ok_bind, hadd, ok_bind]
    dsimp only
    rw [hvalid, ok_bind]
    rfl
  rw [hmerge, (hforward _ hmerge).2.unique hpayload]

/-- A merged payload is valid again, and says what the payloads say together, cut to the bound. -/
theorem merged_valid {payloads : List Json}
    (hv : ∀ p ∈ payloads, validateMetricPayload p = .ok ()) {r : Json}
    (h : mergeMetricPayloads payloads = .ok r) :
    validateMetricPayload r = .ok () ∧ tally r = (tallyAll payloads).cut := by
  have hwf : (tallyAll payloads).cut.WellFormed := (wellFormed_foldl hv wellFormed_empty).cut
  obtain ⟨hbounded, c, g, l, hc, hg, hl, rfl⟩ := (mergeMetricPayloads_ok_iff hv r).mp h
  obtain ⟨hiff, htally⟩ := validate_payloadJson hc hg hl hwf hbounded.counters
    (length_histograms_cut (tallyAll payloads))
  exact ⟨hiff.mpr hbounded, htally hbounded⟩

end SpoolCache.Telemetry

import Mathlib.Algebra.BigOperators.Group.List.Basic
import SpoolCache.Telemetry.Payload

/-!
# Merging telemetry

`merge_metric_payloads`, `telemetry.py:513–565`. Counters are added under a bound that is checked at
every partial sum, the last value of a gauge counts, and of a histogram the first 4096 observations
are kept; the others are added to a counter of their own. None of that depends on how the payloads
are grouped: a merge is the concatenation of its inputs, cut to the bounds at the end.
-/

namespace SpoolCache.Telemetry

open SpoolCache.Base

/-- The counter of the observations that were not kept. -/
def droppedKey : MetricKey := ⟨"spoolcache_telemetry_dropped_total", ["histogram"]⟩

/-- The locals of the merge loop, `telemetry.py:514–517`. -/
structure MergeState where
  counters : OrderedDict MetricKey Nat
  gauges : OrderedDict GaugeKey Nat
  histograms : OrderedDict MetricKey (List Nat)
  overflow : Nat

def MergeState.empty : MergeState := ⟨.empty, .empty, .empty, 0⟩

/-- One counter, `telemetry.py:520–526`. -/
def addCounter (label : String) (counters : OrderedDict MetricKey Nat) (record : MetricKey × Nat) :
    Except PyError (OrderedDict MetricKey Nat) := do
  let total ← validateNumber label (numberJson ((counters.get? record.1).getD 0 + record.2))
  pure (counters.set record.1 total)

/-- One histogram, `telemetry.py:530–535`. -/
def extendHistogram (state : OrderedDict MetricKey (List Nat) × Nat)
    (record : MetricKey × List Nat) : OrderedDict MetricKey (List Nat) × Nat :=
  let values := (state.1.get? record.1).getD []
  let remaining := maxHistogramObservations - values.length
  (state.1.set record.1 (values ++ record.2.take remaining),
    state.2 + (record.2.length - remaining))

/-- One payload, `telemetry.py:518–535`. -/
def mergePayload (state : MergeState) (payload : Json) : Except PyError MergeState := do
  validateMetricPayload payload
  let counters ← (← decodeCounters payload).foldlM (addCounter "merged counter total") state.counters
  let gauges := (← decodeGauges payload).foldl (fun gauges record ↦ gauges.set record.1 record.2)
    state.gauges
  let histograms := (← decodeHistograms payload).foldl extendHistogram
    (state.histograms, state.overflow)
  pure ⟨counters, gauges, histograms.1, histograms.2⟩

/-- The observations that were not kept, `telemetry.py:536–541`. -/
def addOverflow (state : MergeState) : Except PyError (OrderedDict MetricKey Nat) :=
  if state.overflow = 0 then .ok state.counters
  else addCounter "merged dropped-observation total" state.counters (droppedKey, state.overflow)

/-- `merge_metric_payloads`, `telemetry.py:513–565`. -/
def mergeMetricPayloads (payloads : List Json) : Except PyError Json := do
  let state ← payloads.foldlM mergePayload .empty
  let counters ← addOverflow state
  let merged := payloadJson counters.sortedItems state.gauges.sortedItems
    state.histograms.sortedItems
  validateMetricPayload merged
  pure merged

/-! ### Tallies -/

/-- What payloads say, without bounds: the sum of every counter, the last value of every gauge, all
observations of every histogram. -/
@[ext]
structure Tally where
  counters : MetricKey → Option Nat
  gauges : GaugeKey → Option Nat
  histograms : MetricKey → Option (List Nat)

/-- The sum of two numbers that may be absent. -/
def addOption : Option Nat → Option Nat → Option Nat
  | none, y => y
  | some a, y => some (a + y.getD 0)

/-- Two lists that may be absent, one after the other. -/
def appendOption : Option (List Nat) → Option (List Nat) → Option (List Nat)
  | none, y => y
  | some a, y => some (a ++ y.getD [])

/-- An absent summand adds nothing. -/
@[simp] theorem addOption_none_right (x : Option Nat) : addOption x none = x := by
  cases x <;> simp [addOption]

/-- An absent summand adds nothing. -/
@[simp] theorem addOption_none_left (x : Option Nat) : addOption none x = x := rfl

/-- An absent counter counts as zero. -/
@[simp] theorem getD_addOption (x y : Option Nat) :
    (addOption x y).getD 0 = x.getD 0 + y.getD 0 := by
  cases x <;> simp [addOption]

/-- A sum is there when a summand is. -/
theorem isSome_addOption (x y : Option Nat) : (addOption x y).isSome = (x.isSome || y.isSome) := by
  cases x <;> simp [addOption]

private theorem addOption_assoc (x y z : Option Nat) :
    addOption (addOption x y) z = addOption x (addOption y z) := by
  cases x <;> cases y <;> simp [addOption, Nat.add_assoc]

/-- An absent histogram adds nothing. -/
@[simp] theorem appendOption_none_right (x : Option (List Nat)) : appendOption x none = x := by
  cases x <;> simp [appendOption]

/-- An absent histogram adds nothing. -/
@[simp] theorem appendOption_none_left (x : Option (List Nat)) : appendOption none x = x := rfl

/-- An absent histogram counts as empty. -/
@[simp] theorem getD_appendOption (x y : Option (List Nat)) :
    (appendOption x y).getD [] = x.getD [] ++ y.getD [] := by
  cases x <;> simp [appendOption]

private theorem appendOption_assoc (x y z : Option (List Nat)) :
    appendOption (appendOption x y) z = appendOption x (appendOption y z) := by
  cases x <;> cases y <;> simp [appendOption]

namespace Tally

def empty : Tally := ⟨fun _ ↦ none, fun _ ↦ none, fun _ ↦ none⟩

/-- Two tallies, one after the other. -/
def append (x y : Tally) : Tally where
  counters key := addOption (x.counters key) (y.counters key)
  gauges key := (y.gauges key).or (x.gauges key)
  histograms key := appendOption (x.histograms key) (y.histograms key)

/-- The empty tally adds nothing. -/
theorem empty_append (x : Tally) : empty.append x = x := by
  ext1 <;> funext key <;> simp [append, empty]

/-- The grouping of payloads does not matter. -/
theorem append_assoc (x y z : Tally) : (x.append y).append z = x.append (y.append z) := by
  ext1
  · funext key
    exact addOption_assoc _ _ _
  · funext key
    simp [append, Option.or_assoc]
  · funext key
    exact appendOption_assoc _ _ _

/-- The histograms of the vocabulary. -/
@[irreducible]
def histogramKeys : List MetricKey :=
  metricDefinitions.flatMap fun p ↦
    if p.2.kind = .histogram then p.2.allowedLabels.map fun labels ↦ ⟨p.1, labels⟩ else []

/-- Observations of a histogram. -/
def observed (x : Tally) (key : MetricKey) : Nat := ((x.histograms key).getD []).length

/-- Observations that do not fit. -/
def overflow (x : Tally) : Nat :=
  (histogramKeys.map fun key ↦ x.observed key - maxHistogramObservations).sum

/-- A counter with the observations that do not fit, when it is theirs. -/
def addDropped (dropped : Nat) (key : MetricKey) (counter : Option Nat) : Option Nat :=
  if dropped ≠ 0 ∧ key = droppedKey then some (counter.getD 0 + dropped) else counter

/-- The tally cut to the bounds, with the observations that do not fit on their own counter. -/
def cut (x : Tally) : Tally where
  counters key := addDropped x.overflow key (x.counters key)
  gauges := x.gauges
  histograms key := (x.histograms key).map (List.take maxHistogramObservations)

/-- Cutting an absent histogram leaves it absent. -/
theorem getD_take (h : Option (List Nat)) (n : Nat) :
    (h.map (List.take n)).getD [] = (h.getD []).take n := by
  cases h <;> simp

/-- Observations add up. -/
@[simp] theorem observed_append (x y : Tally) (key : MetricKey) :
    (x.append y).observed key = x.observed key + y.observed key := by
  simp [observed, append]

/-- A cut keeps as many observations as the bound allows. -/
@[simp] theorem observed_cut (x : Tally) (key : MetricKey) :
    x.cut.observed key = min maxHistogramObservations (x.observed key) := by
  simp [observed, cut, getD_take]

/-- Totals over the keys add up when the values do. -/
theorem sum_map_add_eq {f g h : MetricKey → Nat} (keys : List MetricKey)
    (hfgh : ∀ key, f key + g key = h key) :
    (keys.map f).sum + (keys.map g).sum = (keys.map h).sum := by
  induction keys with
  | nil => rfl
  | cons key keys ih =>
    have := hfgh key
    simp only [List.map_cons, List.sum_cons]
    omega

private theorem overflow_cut_append (x y : Tally) :
    x.overflow + (x.cut.append y).overflow = (x.append y).overflow := by
  apply sum_map_add_eq
  intro key
  rw [observed_append, observed_append, observed_cut]
  omega

private theorem overflow_append_cut (x y : Tally) :
    y.overflow + (x.append y.cut).overflow = (x.append y).overflow := by
  apply sum_map_add_eq
  intro key
  rw [observed_append, observed_append, observed_cut]
  omega

/-- Counters are added key by key. -/
theorem counters_append (x y : Tally) (key : MetricKey) :
    (x.append y).counters key = addOption (x.counters key) (y.counters key) := rfl

/-- The later payload decides about a gauge. -/
theorem gauges_append (x y : Tally) (key : GaugeKey) :
    (x.append y).gauges key = (y.gauges key).or (x.gauges key) := rfl

/-- A cut changes no gauge. -/
theorem gauges_cut (x : Tally) (key : GaugeKey) : x.cut.gauges key = x.gauges key := rfl

/-- A cut changes the counter of dropped observations only. -/
theorem counters_cut (x : Tally) (key : MetricKey) :
    x.cut.counters key = addDropped x.overflow key (x.counters key) := rfl

/-- The dropped observations are counted under their own key. -/
theorem getD_addDropped (n : Nat) (key : MetricKey) (c : Option Nat) :
    (addDropped n key c).getD 0 = c.getD 0 + if key = droppedKey then n else 0 := by
  unfold addDropped
  by_cases hkey : key = droppedKey
  · rw [if_pos hkey]
    split
    · rfl
    · next h =>
      have hn : n = 0 := by
        by_contra hn
        exact h ⟨hn, hkey⟩
      rw [hn, Nat.add_zero]
  · rw [if_neg hkey, if_neg fun h ↦ hkey h.2, Nat.add_zero]

/-- The counter of dropped observations appears when some are dropped. -/
theorem isSome_addDropped (n : Nat) (key : MetricKey) (c : Option Nat) :
    (addDropped n key c).isSome = (c.isSome || decide (n ≠ 0 ∧ key = droppedKey)) := by
  unfold addDropped
  split
  · next h => simp [h]
  · next h => rw [decide_eq_false h, Bool.or_false]

private theorem decide_dropped_add (m n : Nat) (key : MetricKey) :
    decide (m + n ≠ 0 ∧ key = droppedKey) =
      (decide (m ≠ 0 ∧ key = droppedKey) || decide (n ≠ 0 ∧ key = droppedKey)) := by
  have hor : (m + n ≠ 0 ∧ key = droppedKey) ↔
      (m ≠ 0 ∧ key = droppedKey) ∨ (n ≠ 0 ∧ key = droppedKey) := by
    rw [← or_and_right]
    apply and_congr_left'
    omega
  rw [← Bool.decide_or]
  exact decide_eq_decide.mpr hor

private theorem option_ext {x y : Option Nat} (hs : x.isSome = y.isSome)
    (hv : x.getD 0 = y.getD 0) :
    x = y := by
  cases x <;> cases y <;> simp_all

private theorem addDropped_add_left (m n : Nat) (key : MetricKey) (c d : Option Nat) :
    addDropped n key (addOption (addDropped m key c) d) =
      addDropped (m + n) key (addOption c d) := by
  apply option_ext
  · simp only [isSome_addDropped, isSome_addOption, decide_dropped_add]
    cases c.isSome <;> cases d.isSome <;> simp
  · simp only [getD_addDropped, getD_addOption]
    split <;> omega

private theorem addDropped_add_right (m n : Nat) (key : MetricKey) (c d : Option Nat) :
    addDropped n key (addOption c (addDropped m key d)) =
      addDropped (m + n) key (addOption c d) := by
  apply option_ext
  · simp only [isSome_addDropped, isSome_addOption, decide_dropped_add]
    cases c.isSome <;> cases d.isSome <;> simp
  · simp only [getD_addDropped, getD_addOption]
    split <;> omega

private theorem take_append_take (n : Nat) (a b : List Nat) :
    (a.take n ++ b).take n = (a ++ b).take n := by
  rw [List.take_append, List.take_append, List.take_take, Nat.min_self, List.length_take]
  by_cases h : n ≤ a.length
  · rw [Nat.min_eq_left h, Nat.sub_self, Nat.sub_eq_zero_of_le h]
  · rw [Nat.min_eq_right (by omega)]

private theorem append_take_take (n : Nat) (a b : List Nat) :
    (a ++ b.take n).take n = (a ++ b).take n := by
  rw [List.take_append, List.take_append, List.take_take]
  congr 2
  omega

private theorem take_appendOption_left (n : Nat) (x y : Option (List Nat)) :
    (appendOption (x.map (List.take n)) y).map (List.take n) =
      (appendOption x y).map (List.take n) := by
  cases x with
  | none => simp
  | some a => simp [appendOption, take_append_take]

private theorem take_appendOption_right (n : Nat) (x y : Option (List Nat)) :
    (appendOption x (y.map (List.take n))).map (List.take n) =
      (appendOption x y).map (List.take n) := by
  cases x with
  | none => cases y <;> simp
  | some a => cases y <;> simp [appendOption, append_take_take]

/-- Cutting the first part before the end makes no difference. -/
theorem cut_cut_append (x y : Tally) : (x.cut.append y).cut = (x.append y).cut := by
  ext1
  · funext key
    rw [counters_cut, counters_cut, counters_append, counters_append, counters_cut,
      addDropped_add_left, overflow_cut_append]
  · funext key
    simp only [gauges_cut, gauges_append]
  · funext key
    exact take_appendOption_left _ _ _

/-- Cutting the second part before the end makes no difference. -/
theorem cut_append_cut (x y : Tally) : (x.append y.cut).cut = (x.append y).cut := by
  ext1
  · funext key
    rw [counters_cut, counters_cut, counters_append, counters_append, counters_cut,
      addDropped_add_right, overflow_append_cut]
  · funext key
    simp only [gauges_cut, gauges_append]
  · funext key
    exact take_appendOption_right _ _ _

end Tally

end SpoolCache.Telemetry

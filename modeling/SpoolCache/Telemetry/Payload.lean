import SpoolCache.Base.Except
import SpoolCache.Base.OrderedDict
import SpoolCache.Telemetry.Metrics

/-!
# Metric payloads

`telemetry.py:278–330` and `419–498`. A payload carries the records of every kind of metric as
plain JSON values; a record is checked against the vocabulary before it is used. Numbers are
integers here: floats are left out.
-/

namespace SpoolCache.Telemetry

open SpoolCache.Base

/-- `METRIC_PAYLOAD_SCHEMA`, `telemetry.py:18`. -/
def metricPayloadSchema : String := "spoolcache-metrics/v1"

/-- `MAX_HISTOGRAM_OBSERVATIONS`, `telemetry.py:19`. -/
def maxHistogramObservations : Nat := 4096

/-- `MAX_METRIC_RECORDS`, `telemetry.py:20`. -/
def maxMetricRecords : Nat := 4096

/-- A gauge of one source, ordered as Python orders `(name, labels, source)`. -/
structure GaugeKey where
  metric : MetricKey
  source : String

namespace GaugeKey

/-- The tuple `(name, labels, source)`. -/
def tuple (key : GaugeKey) : MetricKey ×ₗ String := toLex (key.metric, key.source)

private theorem tuple_injective : Function.Injective tuple := by
  rintro ⟨metric, source⟩ ⟨metric', source'⟩ h
  cases toLex.injective h
  rfl

instance : LinearOrder GaugeKey := LinearOrder.lift' tuple tuple_injective

end GaugeKey

/-! ### Checks -/

/-- `_SOURCE_RE.fullmatch`, `telemetry.py:22`. -/
def matchesSource (source : String) : Bool :=
  source = "scheduler" ||
    match source.toList with
    | 'r' :: 'a' :: 'n' :: 'k' :: ':' :: digits =>
      digits = ['0'] || (digits.head?.any (fun c ↦ '1' ≤ c && c ≤ '9') && digits.all Char.isDigit)
    | _ => false

/-- `_validate_source`, `telemetry.py:287–294`. -/
def validateSource : Json → Except PyError String
  | .str source =>
    if 32 < source.length ∨ matchesSource source = false then
      .error (.valueError "metric source must be scheduler or a physical rank")
    else .ok source
  | _ => .error (.valueError "metric source must be scheduler or a physical rank")

/-- `_validate_number`, `telemetry.py:297–310`, for integers. -/
def validateNumber (label : String) : Json → Except PyError Nat
  | .int value =>
    if value < 0 ∨ (maxMetricValue : Int) < value then
      .error (.valueError (label ++ " must be a finite non-negative number"))
    else .ok value.toNat
  | _ => .error (.valueError (label ++ " must be a finite non-negative number"))

/-- The name of a kind in an error, `kind.value[:-1]`. -/
def MetricKind.singular : MetricKind → String
  | .counter => "counter"
  | .gauge => "gauge"
  | .histogram => "histogram"

/-- `_validate_metric`, `telemetry.py:313–329`. -/
def validateMetric (kind : MetricKind) (name : Json) (labels : List Json) :
    Except PyError MetricKey :=
  match name with
  | .str name =>
    match metricDefinitions.lookup name with
    | none => .error (.valueError "unknown SpoolCache metric")
    | some definition =>
      if definition.kind ≠ kind then
        let singular := kind.singular
        .error (.typeError s!"{name} is not a {singular}")
      else
        match textsOf labels with
        | none => .error (.typeError "metric labels must be strings")
        | some texts =>
          if texts ∉ definition.allowedLabels then
            .error (.valueError s!"{name} labels are outside the bounded vocabulary")
          else .ok ⟨name, texts⟩
  | _ => .error (.valueError "unknown SpoolCache metric")

/-! ### Records -/

/-- `expected_keys`, `telemetry.py:432–438`. -/
def recordFields : MetricKind → List String
  | .counter => ["name", "labels", "value"]
  | .gauge => ["name", "labels", "value", "source"]
  | .histogram => ["name", "labels", "values"]

/-- `isinstance(raw, Mapping)`. -/
def isMapping : Json → Bool
  | .obj _ => true
  | _ => false

/-- The metric of a record, `telemetry.py:430–446`. -/
def recordMetric (kind : MetricKind) (raw : Json) : Except PyError MetricKey :=
  if isMapping raw = false then .error (.valueError "metric record must be a mapping")
  else if raw.hasFields (recordFields kind) = false then
    .error (.valueError "metric record fields differ from the schema")
  else
    match raw.field? "name", raw.field? "labels" with
    | some name, some (.arr labels) => validateMetric kind name labels
    | _, _ => .error (.valueError "metric record labels must be a list")

/-- The key of a gauge, with its source, `telemetry.py:447–450`. -/
def recordGauge (raw : Json) : Except PyError GaugeKey := do
  let metric ← recordMetric .gauge raw
  let source ← validateSource ((raw.field? "source").getD .null)
  pure ⟨metric, source⟩

/-- The value of a counter or a gauge, `telemetry.py:474–479`. -/
def recordValue (label : String) (raw : Json) : Except PyError Nat :=
  validateNumber label ((raw.field? "value").getD .null)

/-- The values of a histogram, `telemetry.py:454–469`. -/
def recordValues (raw : Json) : Except PyError (List Nat) :=
  match raw.field? "values" with
  | some (.arr values) =>
    if maxHistogramObservations < values.length then
      .error (.valueError "histogram observations exceed the fixed bound")
    else values.mapM (validateNumber "histogram observation")
  | _ => .error (.valueError "histogram values must be a list")

section

variable {κ ν : Type} [DecidableEq κ] (key : Json → Except PyError κ)
  (value : Json → Except PyError ν)

/-- The loop over the records of a kind, with the keys seen before, `telemetry.py:427–481`. -/
def decodeLoop : List Json → List κ → Except PyError (List (κ × ν))
  | [], _ => .ok []
  | raw :: raws, seen => do
    let k ← key raw
    if k ∈ seen then .error (.valueError "metric payload contains duplicate records")
    else do
      let v ← value raw
      let records ← decodeLoop raws (k :: seen)
      pure ((k, v) :: records)

/-- `_decode_records`, `telemetry.py:419–482`, given how a record of the kind is read. -/
def decodeRecords (kind : MetricKind) (payload : Json) : Except PyError (List (κ × ν)) :=
  match payload.field? kind.value with
  | some (.arr raws) =>
    if maxMetricRecords < raws.length then
      .error (.valueError "metric payload record count exceeds the fixed bound")
    else decodeLoop key value raws []
  | _ =>
    let field := kind.value
    .error (.valueError s!"metric payload {field} must be a list")

end

/-- The counters of a payload. -/
def decodeCounters : Json → Except PyError (List (MetricKey × Nat)) :=
  decodeRecords (recordMetric .counter) (recordValue "counter value") .counter

/-- The gauges of a payload. -/
def decodeGauges : Json → Except PyError (List (GaugeKey × Nat)) :=
  decodeRecords recordGauge (recordValue "gauge value") .gauge

/-- The histograms of a payload. -/
def decodeHistograms : Json → Except PyError (List (MetricKey × List Nat)) :=
  decodeRecords (recordMetric .histogram) recordValues .histogram

/-- `validate_metric_payload`, `telemetry.py:485–498`. -/
def validateMetricPayload (payload : Json) : Except PyError Unit := do
  if isMapping payload = false then .error (.valueError "metric payload must be a mapping")
  else if payload.hasFields ["schema", "counters", "gauges", "histograms"] = false then
    .error (.valueError "metric payload fields differ from the schema")
  else if payload.textField? "schema" ≠ some metricPayloadSchema then
    .error (.valueError "metric payload schema is unsupported")
  else do
    let _ ← decodeCounters payload
    let _ ← decodeGauges payload
    let _ ← decodeHistograms payload
    pure ()

/-! ### Writing -/

/-- A number of a record. -/
def numberJson (n : Nat) : Json := .int n

/-- The labels of a record. -/
def labelsJson (labels : List String) : Json := .arr (labels.map .str)

/-- A counter of a merged payload, `telemetry.py:544–547`. -/
def counterJson (entry : MetricKey × Nat) : Json :=
  .obj [("name", .str entry.1.name), ("labels", labelsJson entry.1.labels),
    ("value", .int entry.2)]

/-- A gauge of a merged payload, `telemetry.py:548–556`. -/
def gaugeJson (entry : GaugeKey × Nat) : Json :=
  .obj [("name", .str entry.1.metric.name), ("labels", labelsJson entry.1.metric.labels),
    ("source", .str entry.1.source), ("value", .int entry.2)]

/-- A histogram of a merged payload, `telemetry.py:557–560`. -/
def histogramJson (entry : MetricKey × List Nat) : Json :=
  .obj [("name", .str entry.1.name), ("labels", labelsJson entry.1.labels),
    ("values", .arr (entry.2.map numberJson))]

/-- A payload with these records. -/
def payloadJson (counters : List (MetricKey × Nat)) (gauges : List (GaugeKey × Nat))
    (histograms : List (MetricKey × List Nat)) : Json :=
  .obj [("schema", .str metricPayloadSchema), ("counters", .arr (counters.map counterJson)),
    ("gauges", .arr (gauges.map gaugeJson)), ("histograms", .arr (histograms.map histogramJson))]

/-- `empty_metric_payload`, `telemetry.py:278–284`. -/
def emptyMetricPayload : Json := payloadJson [] [] []

/-! ### What is decoded -/

section

variable {κ ν : Type} [DecidableEq κ] {key : Json → Except PyError κ}
  {value : Json → Except PyError ν}

private theorem decodeLoop_ok {raws : List Json} {seen : List κ} {records : List (κ × ν)}
    (h : decodeLoop key value raws seen = .ok records) :
    (records.map Prod.fst).Nodup ∧ (∀ k ∈ records.map Prod.fst, k ∉ seen) ∧
      ∀ k v, (k, v) ∈ records → ∃ raw, key raw = .ok k ∧ value raw = .ok v := by
  induction raws generalizing seen records with
  | nil =>
    cases h
    simp
  | cons raw raws ih =>
    obtain ⟨k, hk, h⟩ := bind_ok h
    split at h
    · cases h
    · next hseen =>
      obtain ⟨v, hv, h⟩ := bind_ok h
      obtain ⟨rest, hrest, h⟩ := bind_ok h
      cases h
      obtain ⟨hnodup, hfresh, hread⟩ := ih hrest
      refine ⟨?_, ?_, ?_⟩
      · rw [List.map_cons, List.nodup_cons]
        exact ⟨fun hm ↦ hfresh k hm List.mem_cons_self, hnodup⟩
      · intro a ha
        rcases List.mem_cons.mp ha with rfl | ha
        · exact hseen
        · exact fun hs ↦ hfresh a ha (List.mem_cons_of_mem _ hs)
      · intro a b hab
        rcases List.mem_cons.mp hab with hab | hab
        · cases hab
          exact ⟨raw, hk, hv⟩
        · exact hread a b hab

private theorem decodeLoop_map {encode : κ × ν → Json} {records : List (κ × ν)} {seen : List κ}
    (hnodup : (records.map Prod.fst).Nodup) (hfresh : ∀ k ∈ records.map Prod.fst, k ∉ seen)
    (hread : ∀ r ∈ records, key (encode r) = .ok r.1 ∧ value (encode r) = .ok r.2) :
    decodeLoop key value (records.map encode) seen = .ok records := by
  induction records generalizing seen with
  | nil => rfl
  | cons r records ih =>
    obtain ⟨hk, hv⟩ := hread r List.mem_cons_self
    rw [List.map_cons, List.nodup_cons] at hnodup
    have hseen : r.1 ∉ seen := hfresh r.1 List.mem_cons_self
    have hrest : ∀ k ∈ records.map Prod.fst, k ∉ r.1 :: seen := by
      intro k hm hs
      rcases List.mem_cons.mp hs with rfl | hs
      · exact hnodup.1 hm
      · exact hfresh k (List.mem_cons_of_mem _ hm) hs
    rw [List.map_cons, decodeLoop, hk, ok_bind, if_neg hseen, hv, ok_bind,
      ih hnodup.2 hrest fun r' hr' ↦ hread r' (List.mem_cons_of_mem _ hr')]
    rfl

/-- Decoded records have distinct keys, each from a raw record. -/
theorem decodeRecords_ok {kind : MetricKind} {payload : Json} {records : List (κ × ν)}
    (h : decodeRecords key value kind payload = .ok records) :
    (records.map Prod.fst).Nodup ∧
      ∀ k v, (k, v) ∈ records → ∃ raw, key raw = .ok k ∧ value raw = .ok v := by
  unfold decodeRecords at h
  split at h
  · split at h
    · cases h
    · obtain ⟨hnodup, -, hread⟩ := decodeLoop_ok h
      exact ⟨hnodup, hread⟩
  · cases h

/-- Encoded records with distinct keys decode, if there are not too many. -/
theorem decodeRecords_map {kind : MetricKind} {payload : Json} {encode : κ × ν → Json}
    {records : List (κ × ν)}
    (hfield : payload.field? kind.value = some (.arr (records.map encode)))
    (hnodup : (records.map Prod.fst).Nodup)
    (hread : ∀ r ∈ records, key (encode r) = .ok r.1 ∧ value (encode r) = .ok r.2) :
    decodeRecords key value kind payload =
      if maxMetricRecords < records.length then
        .error (.valueError "metric payload record count exceeds the fixed bound")
      else .ok records := by
  unfold decodeRecords
  rw [hfield]
  dsimp only
  rw [List.length_map, decodeLoop_map hnodup (fun _ _ ↦ List.not_mem_nil) hread]

end

/-! ### The vocabulary -/

/-- A metric of the kind with labels of its vocabulary. -/
def ValidMetric (kind : MetricKind) (key : MetricKey) : Prop :=
  ∃ definition, metricDefinitions.lookup key.name = some definition ∧ definition.kind = kind ∧
    key.labels ∈ definition.allowedLabels

private theorem validateMetric_eq_ok {kind : MetricKind} {name : Json} {labels : List Json}
    {key : MetricKey} (h : validateMetric kind name labels = .ok key) : ValidMetric kind key := by
  unfold validateMetric at h
  split at h
  · split at h
    · cases h
    · next definition hlookup =>
      split at h
      · cases h
      · next hkind =>
        split at h
        · cases h
        · split at h
          · cases h
          · next hlabels =>
            cases h
            exact ⟨definition, hlookup, Decidable.not_not.mp hkind, Decidable.not_not.mp hlabels⟩
  · cases h

private theorem validateMetric_of_valid {kind : MetricKind} {key : MetricKey}
    (h : ValidMetric kind key) :
    validateMetric kind (.str key.name) (key.labels.map .str) = .ok key := by
  obtain ⟨definition, hlookup, hkind, hlabels⟩ := h
  unfold validateMetric
  simp only [hlookup, hkind, textsOf_map_str, ne_eq, not_true_eq_false, if_false, hlabels]

/-- A metric that is read is valid for its kind. -/
theorem recordMetric_eq_ok {kind : MetricKind} {raw : Json} {key : MetricKey}
    (h : recordMetric kind raw = .ok key) : ValidMetric kind key := by
  unfold recordMetric at h
  split at h
  · cases h
  · split at h
    · cases h
    · split at h
      · exact validateMetric_eq_ok h
      · cases h

/-- A number that is accepted is within the bound. -/
theorem validateNumber_eq_ok {label : String} {v : Json} {n : Nat}
    (h : validateNumber label v = .ok n) : n ≤ maxMetricValue := by
  unfold validateNumber at h
  split at h
  · split at h
    · cases h
    · cases h
      omega
  · cases h

/-- Every number within the bound is accepted. -/
theorem validateNumber_int {label : String} {n : Nat} (h : n ≤ maxMetricValue) :
    validateNumber label (.int n) = .ok n := by
  unfold validateNumber
  dsimp only
  rw [if_neg (by omega)]
  rfl

/-- A source of the vocabulary. -/
def ValidSource (source : String) : Prop := source.length ≤ 32 ∧ matchesSource source = true

/-- A source that is accepted is valid. -/
theorem validateSource_eq_ok {v : Json} {source : String} (h : validateSource v = .ok source) :
    ValidSource source := by
  unfold validateSource at h
  split at h
  · split at h
    · cases h
    · next hs =>
      cases h
      rw [not_or, Nat.not_lt, Bool.not_eq_false] at hs
      exact hs
  · cases h

private theorem validateSource_str {source : String} (h : ValidSource source) :
    validateSource (.str source) = .ok source := by
  unfold validateSource
  dsimp only
  rw [if_neg]
  rw [not_or, Nat.not_lt, Bool.not_eq_false]
  exact h

/-- Accepted observations are few enough and within the bound. -/
theorem recordValues_eq_ok {raw : Json} {values : List Nat} (h : recordValues raw = .ok values) :
    values.length ≤ maxHistogramObservations ∧ ∀ n ∈ values, n ≤ maxMetricValue := by
  unfold recordValues at h
  split at h
  · next items _ =>
    split at h
    · cases h
    · next hlen =>
      have hlength : ∀ {items : List Json} {values : List Nat},
          items.mapM (validateNumber "histogram observation") = .ok values →
            values.length = items.length ∧ ∀ n ∈ values, n ≤ maxMetricValue := by
        intro items
        induction items with
        | nil =>
          intro values hv
          cases hv
          simp
        | cons item items ih =>
          intro values hv
          rw [List.mapM_cons] at hv
          obtain ⟨n, hn, hv⟩ := bind_ok hv
          obtain ⟨rest, hrest, hv⟩ := bind_ok hv
          cases hv
          obtain ⟨hl, hall⟩ := ih hrest
          refine ⟨by rw [List.length_cons, List.length_cons, hl], ?_⟩
          rw [List.forall_mem_cons]
          exact ⟨validateNumber_eq_ok hn, hall⟩
      obtain ⟨hl, hall⟩ := hlength h
      exact ⟨by omega, hall⟩
  · cases h

/-! ### Reading back -/

/-- The metric of an encoded counter is read back. -/
theorem recordMetric_counterJson {entry : MetricKey × Nat} (h : ValidMetric .counter entry.1) :
    recordMetric .counter (counterJson entry) = .ok entry.1 := by
  have hfields : (counterJson entry).hasFields (recordFields .counter) = true := by
    simp [counterJson, Json.hasFields, recordFields]
  unfold recordMetric
  rw [if_neg (by rw [counterJson, isMapping]; decide), if_neg (by rw [hfields]; decide)]
  exact validateMetric_of_valid h

/-- The key of an encoded gauge is read back. -/
theorem recordGauge_gaugeJson {entry : GaugeKey × Nat} (h : ValidMetric .gauge entry.1.metric)
    (hs : ValidSource entry.1.source) : recordGauge (gaugeJson entry) = .ok entry.1 := by
  have hfields : (gaugeJson entry).hasFields (recordFields .gauge) = true := by
    simp [gaugeJson, Json.hasFields, recordFields]
  have hmetric : recordMetric .gauge (gaugeJson entry) = .ok entry.1.metric := by
    unfold recordMetric
    rw [if_neg (by rw [gaugeJson, isMapping]; decide), if_neg (by rw [hfields]; decide)]
    exact validateMetric_of_valid h
  have hsource : (gaugeJson entry).field? "source" = some (.str entry.1.source) := by
    simp [gaugeJson, Json.field?]
  unfold recordGauge
  rw [hmetric, ok_bind, hsource, Option.getD_some, validateSource_str hs, ok_bind]
  rfl

/-- The metric of an encoded histogram is read back. -/
theorem recordMetric_histogramJson {entry : MetricKey × List Nat}
    (h : ValidMetric .histogram entry.1) :
    recordMetric .histogram (histogramJson entry) = .ok entry.1 := by
  have hfields : (histogramJson entry).hasFields (recordFields .histogram) = true := by
    simp [histogramJson, Json.hasFields, recordFields]
  unfold recordMetric
  rw [if_neg (by rw [histogramJson, isMapping]; decide), if_neg (by rw [hfields]; decide)]
  exact validateMetric_of_valid h

private theorem mapM_validateNumber {values : List Nat} (h : ∀ n ∈ values, n ≤ maxMetricValue) :
    (values.map numberJson).mapM (validateNumber "histogram observation") = .ok values := by
  induction values with
  | nil => rfl
  | cons n values ih =>
    rw [List.forall_mem_cons] at h
    rw [List.map_cons, List.mapM_cons, numberJson, validateNumber_int h.1, ok_bind, ih h.2, ok_bind]
    rfl

/-- The observations of an encoded histogram are read back. -/
theorem recordValues_histogramJson {entry : MetricKey × List Nat}
    (hlen : entry.2.length ≤ maxHistogramObservations) (h : ∀ n ∈ entry.2, n ≤ maxMetricValue) :
    recordValues (histogramJson entry) = .ok entry.2 := by
  have hfield : (histogramJson entry).field? "values" =
      some (.arr (entry.2.map numberJson)) := by
    simp [histogramJson, Json.field?]
  unfold recordValues
  rw [hfield]
  dsimp only
  rw [List.length_map, if_neg (by omega), mapM_validateNumber h]

end SpoolCache.Telemetry

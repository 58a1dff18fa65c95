import Mathlib.Data.List.Lex
import Mathlib.Data.Prod.Lex
import SpoolCache.Base.Json
import SpoolCache.Core.Values

/-!
# Metric vocabulary

`telemetry.py:16–265`. Every metric has a kind and a finite set of label tuples. The texts,
buckets and aggregations of the definitions are read by the exporter only and are left out.
-/

namespace SpoolCache.Telemetry

open SpoolCache.Base

/-- `MAX_METRIC_VALUE`, `telemetry.py:21`. -/
def maxMetricValue : Nat := 2 ^ 63 - 1

/-- `MetricKind`, `telemetry.py:25–28`. -/
inductive MetricKind where
  | counter
  | gauge
  | histogram
  deriving DecidableEq

/-- The value of a kind, which is also its field of a payload. -/
def MetricKind.value : MetricKind → String
  | .counter => "counters"
  | .gauge => "gauges"
  | .histogram => "histograms"

/-- `MetricDefinition`, `telemetry.py:31–38`, as far as records are checked against it. -/
structure MetricDefinition where
  kind : MetricKind
  allowedLabels : List (List String)

/-- A metric without labels. -/
def unlabelled (kind : MetricKind) : MetricDefinition := ⟨kind, [[]]⟩

/-- A metric with one label from a list. -/
def labelled (kind : MetricKind) (labels : List String) : MetricDefinition :=
  ⟨kind, labels.map fun label ↦ [label]⟩

/-- `LOOKUP_LABELS`, `telemetry.py:71–81`. -/
def lookupLabels : List (List String) :=
  [["hit", "ready_entry"], ["bypass", "request_skip_read"], ["miss", "catalog_unavailable"],
    ["miss", "cache_salt"], ["miss", "request_shape"], ["miss", "multimodal_identity"],
    ["miss", "safe_span"], ["miss", "rank_quorum"], ["miss", "restore_budget"]]

/-- `METRIC_DEFINITIONS`, `telemetry.py:102–265`. -/
def metricDefinitions : List (String × MetricDefinition) :=
  [("spoolcache_lookup_total", ⟨.counter, lookupLabels⟩),
    ("spoolcache_hit_tokens_total", unlabelled .counter),
    ("spoolcache_restore_bytes_total", unlabelled .counter),
    ("spoolcache_restore_seconds", unlabelled .histogram),
    ("spoolcache_store_bytes_total", unlabelled .counter),
    ("spoolcache_store_seconds", unlabelled .histogram),
    ("spoolcache_store_skipped_total",
      labelled .counter ["duplicate", "budget", "busy", "unsafe_boundary", "error"]),
    ("spoolcache_post_admission_failure_total",
      labelled .counter ["lookup", "span", "manifest", "payload", "unknown"]),
    ("spoolcache_rank_quorum_entries", unlabelled .gauge),
    ("spoolcache_rank_generation_changes_total", unlabelled .counter),
    ("spoolcache_pinned_pool_bytes", unlabelled .gauge),
    ("spoolcache_delayed_store_requests", unlabelled .gauge),
    ("spoolcache_disk_bytes", unlabelled .gauge),
    ("spoolcache_managed_disk_bytes", unlabelled .gauge),
    ("spoolcache_quarantine_bytes", unlabelled .gauge),
    ("spoolcache_quarantined_entries_total",
      labelled .counter ["manifest_io", "manifest_validation", "object_collision",
        "payload_checksum", "payload_size", "unknown"]),
    ("spoolcache_scrub_payload_bytes_total", unlabelled .counter),
    ("spoolcache_scrub_objects_total", unlabelled .counter),
    ("spoolcache_scrub_manifests_total", unlabelled .counter),
    ("spoolcache_scrub_cycles_total", unlabelled .counter),
    ("spoolcache_scrub_objects_quarantined_total", unlabelled .counter),
    ("spoolcache_scrub_failures_total", unlabelled .counter),
    ("spoolcache_scrub_namespace_items_total", unlabelled .counter),
    ("spoolcache_scrub_shutdown_failures_total", unlabelled .counter),
    ("spoolcache_orphan_objects_removed_total", unlabelled .counter),
    ("spoolcache_orphan_bytes_removed_total", unlabelled .counter),
    ("spoolcache_temporary_files_removed_total", unlabelled .counter),
    ("spoolcache_required_ranks", unlabelled .gauge),
    ("spoolcache_ready_ranks", unlabelled .gauge),
    ("spoolcache_readiness",
      labelled .gauge ["rank_identity", "inventory_quorum", "fatal_clear"]),
    ("spoolcache_telemetry_dropped_total", labelled .counter ["histogram"])]

/-- A metric with its labels, ordered as Python orders the tuple `(name, labels)`. -/
structure MetricKey where
  name : String
  labels : List String

namespace MetricKey

/-- The tuple `(name, labels)`. -/
def tuple (key : MetricKey) : String ×ₗ List String := toLex (key.name, key.labels)

private theorem tuple_injective : Function.Injective tuple := by
  rintro ⟨name, labels⟩ ⟨name', labels'⟩ h
  cases toLex.injective h
  rfl

instance : LinearOrder MetricKey := LinearOrder.lift' tuple tuple_injective

end MetricKey

instance instLawfulBEqLabels : LawfulBEq (List String) := inferInstance

/-- The texts of a list of values, when all of them are texts. -/
def textsOf : List Json → Option (List String)
  | [] => some []
  | .str s :: values => (textsOf values).map (s :: ·)
  | _ :: _ => none

/-- Texts are read back from their values. -/
theorem textsOf_map_str (texts : List String) : textsOf (texts.map .str) = some texts := by
  induction texts with
  | nil => rfl
  | cons text texts ih => rw [List.map_cons, textsOf, ih, Option.map_some]

end SpoolCache.Telemetry

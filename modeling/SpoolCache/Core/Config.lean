import SpoolCache.Core.Values

/-!
# Fixed bounds

`config.py`. One inventory record is charged `INVENTORY_ENTRY_BYTES` (`config.py:33–39`), a
sum of `sys.getsizeof` values that depends on the interpreter; it stays a parameter here.
Constructors reject bounds that cannot hold one record, so the bounds carry that fact.
-/

namespace SpoolCache

/-- Validated memory and report bounds of a reporter or a catalog
(`quorum.py:83–92`, `quorum.py:285–301`, `config.py:42–46`). -/
structure InventoryBounds where
  entryBytes : Nat
  maxBytes : Nat
  maxReportEntries : Nat
  entryBytes_pos : 0 < entryBytes
  entryBytes_le : entryBytes ≤ maxBytes
  maxReportEntries_pos : 0 < maxReportEntries

namespace InventoryBounds

/-- `inventory_capacity`: records that fit the memory allowance, `config.py:42–46`. -/
def inventoryCapacity (b : InventoryBounds) : Nat := b.maxBytes / b.entryBytes

/-- The source's bound test `count * INVENTORY_ENTRY_BYTES > max_bytes`. -/
def overBound (b : InventoryBounds) (count : Nat) : Bool :=
  decide (b.maxBytes < count * b.entryBytes)

/-- The byte test is the capacity test. -/
theorem overBound_iff (b : InventoryBounds) (count : Nat) :
    b.overBound count = true ↔ b.inventoryCapacity < count := by
  rw [overBound, decide_eq_true_eq, inventoryCapacity, Nat.div_lt_iff_lt_mul b.entryBytes_pos]

/-- A count is within the bound exactly when it is no more than the capacity. -/
theorem not_overBound_iff (b : InventoryBounds) (count : Nat) :
    b.overBound count = false ↔ count ≤ b.inventoryCapacity := by
  rw [← Bool.not_eq_true, overBound_iff, Nat.not_lt]

/-- One record always fits. -/
theorem inventoryCapacity_pos (b : InventoryBounds) : 0 < b.inventoryCapacity :=
  Nat.div_pos b.entryBytes_le b.entryBytes_pos

end InventoryBounds

/-- Restores admitted and not yet loaded; `config.py:22`. -/
def maxPendingRestores : Nat := 2

/-- Store plans admitted in one scheduler step; `config.py:23`. -/
def maxPendingStores : Nat := 1

/-- `aligned_chunk_tokens`: least multiple of the alignment that covers 256 tokens,
`config.py:48–54`. -/
def alignedChunkTokens (alignment : Nat) : Nat := (256 + alignment - 1) / alignment * alignment

end SpoolCache

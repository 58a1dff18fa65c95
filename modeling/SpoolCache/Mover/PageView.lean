import Mathlib.Data.Set.Lattice
import Mathlib.Order.CompletePartialOrder
import Mathlib.Tactic.Ring
import SpoolCache.Base.Except
import SpoolCache.Base.Strided
import SpoolCache.Core.Values

/-!
# Physical page views

`gpu.py:640–698`. A registered KV tensor keeps `shape[0] / manager_blocks` rows for every manager
block; the mover copies the block's page as opaque bytes, through a byte view that
`torch.as_strided` lays over the tensor's storage.
-/

namespace SpoolCache.Mover

open SpoolCache.Base

/-- The geometry `manager_page_view` reads of a tensor. Strides and the storage offset count
elements, as in torch. -/
structure Tensor where
  shape : List Nat
  stride : List Nat
  elementSize : Nat
  storageOffset : Nat
  storageBytes : Nat
  stride_length : stride.length = shape.length
  stride_pos : ∀ s ∈ stride, 0 < s
  elementSize_pos : 0 < elementSize

namespace Tensor

def dim (t : Tensor) : Nat := t.shape.length

def rows (t : Tensor) : Nat := t.shape.headD 0

def rowStride (t : Tensor) : Nat := t.stride.headD 0

/-- First byte of the element at `index`. -/
def elementByte (t : Tensor) (index : List Nat) : Nat :=
  (t.storageOffset + stridedOffset t.stride index) * t.elementSize

/-- `tensor.view(torch.uint8)`, of which only the storage offset is read: a type of another width
needs a dense last dimension. -/
def byteViewOffset (t : Tensor) : Except PyError Nat :=
  if t.elementSize ≠ 1 ∧ t.stride.getLast? ≠ some 1 then
    .error (.runtimeError "self.stride(-1) must be 1 to view as uint8")
  else .ok (t.storageOffset * t.elementSize)

end Tensor

/-- The result of `torch.as_strided` with sizes `(manager_blocks, 1, page_size_bytes)`. -/
structure PageView where
  blocks : Nat
  pageBytes : Nat
  stride : List Nat
  storageOffset : Nat

/-- The storage bytes of one page. -/
def PageView.page (v : PageView) (i : Nat) : Set Nat :=
  {b | ∃ j < v.pageBytes, b = v.storageOffset + stridedOffset v.stride [i, 0, j]}

/-- Python's text of a tuple of integers. -/
def tupleText : List Nat → String
  | [] => "()"
  | [n] => "(" ++ toString n ++ ",)"
  | ns => "(" ++ ", ".intercalate (ns.map toString) ++ ")"

/-- `logical_page_bytes`, `gpu.py:664–668`. -/
def logicalPageBytes (t : Tensor) (rowsPerPage : Nat) : Nat :=
  rowsPerPage * t.shape.tail.prod * t.elementSize

/-- `manager_page_stride`, `gpu.py:669`. -/
def managerPageStride (t : Tensor) (rowsPerPage : Nat) : Nat :=
  t.rowStride * t.elementSize * rowsPerPage

/-- The byte view behind the size checks, `gpu.py:678–698`; torch's own errors are rephrased. -/
def physicalPages (t : Tensor) (blocks pageBytes pageStride : Nat) (layerName : String) :
    Except PyError PageView :=
  match t.byteViewOffset with
  | .error _ => .error (.layoutError s!"KV layer {layerName} physical page view is invalid")
  | .ok storageOffset =>
    if storageOffset + (blocks - 1) * pageStride + pageBytes > t.storageBytes then
      .error (.layoutError "physical manager pages exceed tensor storage")
    else .ok { blocks, pageBytes, stride := [pageStride, pageBytes, 1], storageOffset }

/-- `manager_page_view`, `gpu.py:640–698`. -/
def managerPageView (t : Tensor) (managerBlocks pageSizeBytes : Int) (layerName : String) :
    Except PyError PageView :=
  if managerBlocks ≤ 0 ∨ pageSizeBytes ≤ 0 then
    .error (.layoutError "manager page geometry must be positive")
  else if t.dim < 2 then
    let shape := tupleText t.shape
    .error (.layoutError s!"KV layer {layerName} has unexpected shape {shape}")
  else
    let blocks := managerBlocks.toNat
    let physical := pageSizeBytes.toNat
    if t.rows % blocks ≠ 0 then
      .error (.layoutError s!"KV layer {layerName} rows do not divide manager block count")
    else
      let rowsPerPage := t.rows / blocks
      let logical := logicalPageBytes t rowsPerPage
      let stride := managerPageStride t rowsPerPage
      if stride = 0 ∨ ¬ (logical ≤ physical ∧ physical ≤ stride) then
        .error (.layoutError (s!"KV layer {layerName} page geometry differs: " ++
          s!"logical={logical}, physical={physical}, stride={stride}"))
      else physicalPages t blocks physical stride layerName

/-- Everything an accepted view tells about its tensor. -/
structure Accepted (t : Tensor) (blocks pageBytes : Nat) (v : PageView) : Prop where
  dim_ge : 2 ≤ t.dim
  blocks_pos : 0 < blocks
  rows_eq : t.rows = blocks * (t.rows / blocks)
  pageBytes_le : pageBytes ≤ managerPageStride t (t.rows / blocks)
  stride_pos : 0 < managerPageStride t (t.rows / blocks)
  inside : t.storageOffset * t.elementSize +
    (blocks - 1) * managerPageStride t (t.rows / blocks) + pageBytes ≤ t.storageBytes
  view_eq : v = ⟨blocks, pageBytes, [managerPageStride t (t.rows / blocks), pageBytes, 1],
    t.storageOffset * t.elementSize⟩

private theorem physicalPages_ok {t : Tensor} {blocks pageBytes pageStride : Nat}
    {layerName : String}
    {v : PageView} (h : physicalPages t blocks pageBytes pageStride layerName = .ok v) :
    t.storageOffset * t.elementSize + (blocks - 1) * pageStride + pageBytes ≤ t.storageBytes ∧
      v = ⟨blocks, pageBytes, [pageStride, pageBytes, 1], t.storageOffset * t.elementSize⟩ := by
  unfold physicalPages Tensor.byteViewOffset at h
  split at h
  · cases h
  · next offset hoffset =>
    split at hoffset
    · cases hoffset
    · cases hoffset
      split at h
      · cases h
      · next hsize =>
        cases h
        exact ⟨by omega, rfl⟩

private theorem managerPageView_ok {t : Tensor} {managerBlocks pageSizeBytes : Int}
    {layerName : String}
    {v : PageView} (h : managerPageView t managerBlocks pageSizeBytes layerName = .ok v) :
    Accepted t managerBlocks.toNat pageSizeBytes.toNat v := by
  unfold managerPageView at h
  split at h
  · cases h
  · next hpos =>
    split at h
    · cases h
    · next hdim =>
      dsimp only at h
      split at h
      · cases h
      · next hrows =>
        split at h
        · cases h
        · next hsize =>
          have hrows : t.rows % managerBlocks.toNat = 0 := by omega
          obtain ⟨hinside, hview⟩ := physicalPages_ok h
          have hdiv := Nat.div_add_mod t.rows managerBlocks.toNat
          exact ⟨by omega, by omega, by omega, by omega, by omega, hinside, hview⟩

/-! ### Pages -/

namespace Accepted

variable {t : Tensor} {blocks pageBytes : Nat} {v : PageView}

private theorem mem_page (h : Accepted t blocks pageBytes v) (i b : Nat) :
    b ∈ v.page i ↔
      t.storageOffset * t.elementSize + i * managerPageStride t (t.rows / blocks) ≤ b ∧
        b < t.storageOffset * t.elementSize + i * managerPageStride t (t.rows / blocks) +
          pageBytes := by
  rw [h.view_eq]
  simp only [PageView.page, Set.mem_ofPred_eq, stridedOffset_cons, stridedOffset_nil]
  constructor
  · rintro ⟨j, hj, rfl⟩
    omega
  · rintro ⟨hlow, hhigh⟩
    refine ⟨b - (t.storageOffset * t.elementSize +
      i * managerPageStride t (t.rows / blocks)), by omega, by omega⟩

/-- Pages do not overlap: the next one starts a whole stride behind. -/
theorem disjoint_pages (h : Accepted t blocks pageBytes v) {i j : Nat} (hij : i ≠ j) :
    Disjoint (v.page i) (v.page j) := by
  rw [Set.disjoint_left]
  intro b hi hj
  rw [h.mem_page] at hi hj
  have hle := h.pageBytes_le
  obtain hlt | hlt := Nat.lt_or_gt_of_ne hij
  · have hstep := Nat.mul_le_mul_right (managerPageStride t (t.rows / blocks)) hlt
    rw [Nat.succ_mul] at hstep
    omega
  · have hstep := Nat.mul_le_mul_right (managerPageStride t (t.rows / blocks)) hlt
    rw [Nat.succ_mul] at hstep
    omega

private theorem page_inside (h : Accepted t blocks pageBytes v) {i b : Nat} (hi : i < blocks)
    (hb : b ∈ v.page i) : b < t.storageBytes := by
  rw [h.mem_page] at hb
  have hinside := h.inside
  have hstep := Nat.mul_le_mul_right (managerPageStride t (t.rows / blocks))
    (Nat.le_sub_one_of_lt hi)
  omega

end Accepted

/-! ### Rows -/

/-- What a page view is for: the pages are separate parts of the storage, and each holds every byte
of the rows of its block. -/
structure CoversRows (t : Tensor) (blocks : Nat) (v : PageView) : Prop where
  disjoint : ∀ i < blocks, ∀ j < blocks, i ≠ j → Disjoint (v.page i) (v.page j)
  inside : ∀ i < blocks, ∀ b ∈ v.page i, b < t.storageBytes
  covers : ∀ i < blocks, ∀ row, i * (t.rows / blocks) ≤ row →
    row < (i + 1) * (t.rows / blocks) →
    ∀ index, List.Forall₂ (· < ·) index t.shape.tail →
      ∀ k < t.elementSize, t.elementByte (row :: index) + k ∈ v.page i

/-- The rows of one block end inside the page, the gaps the strides leave between elements included;
a row with an empty dimension has no element. -/
def RowsFitPage (t : Tensor) (rowsPerPage pageBytes : Nat) : Prop :=
  0 ∈ t.shape.tail ∨
    ((rowsPerPage - 1) * t.rowStride + stridedExtent t.stride.tail t.shape.tail + 1) *
      t.elementSize ≤ pageBytes

/-- Elements from the start of a block's rows to one of its elements. -/
def elementInPage (t : Tensor) (rowInPage : Nat) (index : List Nat) : Nat :=
  rowInPage * t.rowStride + stridedOffset t.stride.tail index

private theorem elementByte_cons (t : Tensor) (hdim : 2 ≤ t.dim) (rowsPerPage i q : Nat)
    (index : List Nat) :
    t.elementByte ((i * rowsPerPage + q) :: index) =
      t.storageOffset * t.elementSize + i * managerPageStride t rowsPerPage +
        elementInPage t q index * t.elementSize := by
  have hstride : t.stride = t.rowStride :: t.stride.tail := by
    unfold Tensor.rowStride
    cases hs : t.stride with
    | nil =>
      have hlength := t.stride_length
      rw [hs, List.length_nil] at hlength
      unfold Tensor.dim at hdim
      omega
    | cons s stride => rfl
  unfold Tensor.elementByte managerPageStride elementInPage
  rw [hstride, stridedOffset_cons, List.tail_cons]
  ring

namespace Accepted

variable {t : Tensor} {blocks pageBytes : Nat} {v : PageView}

private theorem rowsPerPage_pos (h : Accepted t blocks pageBytes v) : 0 < t.rows / blocks := by
  have hpos := h.stride_pos
  unfold managerPageStride at hpos
  exact Nat.pos_of_mul_pos_left hpos

private theorem mem_page_element (h : Accepted t blocks pageBytes v) (i q k : Nat)
    (index : List Nat) :
    t.elementByte ((i * (t.rows / blocks) + q) :: index) + k ∈ v.page i ↔
      elementInPage t q index * t.elementSize + k < pageBytes := by
  rw [h.mem_page, elementByte_cons t h.dim_ge]
  omega

private theorem element_le_extent {q rowsPerPage : Nat} (hq : q < rowsPerPage) {index : List Nat}
    (hindex : List.Forall₂ (· < ·) index t.shape.tail) :
    elementInPage t q index ≤
      (rowsPerPage - 1) * t.rowStride + stridedExtent t.stride.tail t.shape.tail := by
  have hrow := Nat.mul_le_mul_right t.rowStride (Nat.le_sub_one_of_lt hq)
  have htail := stridedOffset_le_extent hindex t.stride.tail
  unfold elementInPage
  omega

private theorem covers_of_fit (h : Accepted t blocks pageBytes v)
    (hfit : RowsFitPage t (t.rows / blocks) pageBytes) : CoversRows t blocks v := by
  refine ⟨fun i _ j _ hij ↦ h.disjoint_pages hij, fun i hi b hb ↦ h.page_inside hi hb, ?_⟩
  intro i _ row hlow hhigh index hindex k hk
  obtain ⟨q, rfl⟩ := Nat.exists_eq_add_of_le hlow
  rw [Nat.succ_mul] at hhigh
  rw [h.mem_page_element]
  rcases hfit with hempty | hfit
  · exact absurd hempty (not_mem_zero_of_forall₂_lt hindex)
  · have hq : q < t.rows / blocks := by omega
    have hle := element_le_extent hq hindex
    have hbytes := Nat.mul_le_mul_right t.elementSize hle
    rw [Nat.succ_mul] at hfit
    omega

/-- The farthest byte of a block's rows decides. -/
theorem fit_of_covers (h : Accepted t blocks pageBytes v) (hcovers : CoversRows t blocks v) :
    RowsFitPage t (t.rows / blocks) pageBytes := by
  by_cases hempty : 0 ∈ t.shape.tail
  · exact .inl hempty
  · have hrows := h.rowsPerPage_pos
    have hsize := t.elementSize_pos
    have hlast := hcovers.covers 0 h.blocks_pos (0 * (t.rows / blocks) + (t.rows / blocks - 1))
      (by omega) (by omega) (lastIndex t.shape.tail) (lastIndex_lt hempty) (t.elementSize - 1)
      (by omega)
    rw [h.mem_page_element] at hlast
    right
    rw [Nat.succ_mul]
    unfold elementInPage at hlast
    unfold stridedExtent
    omega

end Accepted

/-- An accepted view covers the rows of its blocks exactly when the rows of one block, with the gaps
their strides leave, end inside the page. -/
theorem managerPageView_covers_iff (t : Tensor) (managerBlocks pageSizeBytes : Int)
    (layerName : String) (v : PageView)
    (h : managerPageView t managerBlocks pageSizeBytes layerName = .ok v) :
    CoversRows t managerBlocks.toNat v ↔
      RowsFitPage t (t.rows / managerBlocks.toNat) pageSizeBytes.toNat :=
  ⟨(managerPageView_ok h).fit_of_covers, (managerPageView_ok h).covers_of_fit⟩

/-- Four rows of four bytes, each followed by four bytes of padding. -/
def paddedRows : Tensor where
  shape := [4, 4]
  stride := [8, 1]
  elementSize := 1
  storageOffset := 0
  storageBytes := 32
  stride_length := rfl
  stride_pos := by decide
  elementSize_pos := Nat.one_pos

/-- With one row a page, the padding belongs to the page. -/
theorem managerPageView_covers_paddedRows :
    CoversRows paddedRows 4 ⟨4, 8, [8, 8, 1], 0⟩ :=
  (managerPageView_covers_iff paddedRows 4 8 "padded" ⟨4, 8, [8, 8, 1], 0⟩ (by rfl)).mpr
    (.inr (by decide))

/-- With two rows a page, eight bytes are accepted as a page although its second row starts
behind them. -/
theorem managerPageView_misses_row :
    managerPageView paddedRows 2 8 "padded" = .ok ⟨2, 8, [16, 8, 1], 0⟩ ∧
      ¬ CoversRows paddedRows 2 ⟨2, 8, [16, 8, 1], 0⟩ := by
  refine ⟨by rfl, fun hcovers ↦ ?_⟩
  have hrow := hcovers.covers 0 (by decide) 1 (by decide) (by decide) [0]
    (.cons (by decide) .nil) 0 (by decide)
  obtain ⟨j, hj, hbyte⟩ := hrow
  have hj : j < 8 := hj
  have hstart : paddedRows.elementByte [1, 0] + 0 = 8 := by decide
  have hpage : stridedOffset [16, 8, 1] [0, 0, j] = j := by simp
  simp only [hstart, hpage] at hbyte
  omega

end SpoolCache.Mover

import SpoolCache.Base.Except
import SpoolCache.Base.Scatter
import SpoolCache.Base.Bytes
import SpoolCache.Core.Values

/-!
# Copies of byte ranges of pages

`gpu.py:271–299` and `gpu.py:402–457`. A range of the bytes of a list of pages is copied to or
from a host buffer: in one piece where the pages lie behind each other in dense storage, and else
as a partial head page, the whole pages through an index, and a partial tail page. The pages of a
layer are a memory of page and byte.
-/

namespace SpoolCache.Mover

open SpoolCache.Base

/-- `BoundPageLayer`, `gpu.py:263–268`, of which `pages` is the shape, the storage and the device. -/
structure PageLayer where
  pageSizeBytes : Nat
  blocks : Nat
  contiguous : Bool
  device : Nat
  pageSizeBytes_pos : 0 < pageSizeBytes

/-- The bytes of the pages of a layer. -/
abbrev PageMemory := Nat × Nat → UInt8

/-- `index_cache`: the pages and the device an index was made for, and the index. -/
abbrev IndexCache := Option ((List Nat × Nat) × List Nat)

/-- `_contiguous_page_span`, `gpu.py:271–284`: the first page of a dense span. -/
def contiguousPageSpan (layer : PageLayer) (physicalPages : List Nat) : Option Nat :=
  match physicalPages with
  | [] => none
  | first :: _ =>
    if layer.contiguous = false then none
    else if physicalPages ≠ (List.range physicalPages.length).map (first + ·) then none
    else some first

/-- The windows of `_segment_byte_ranges`, `gpu.py:291–299`. -/
def segmentWindows {α : Type} (byteLength : α → Nat) : List α → Nat → Nat → List (α × Nat × Nat)
  | [], _, _ => []
  | segment :: segments, start, length =>
    if byteLength segment ≤ start then
      segmentWindows byteLength segments (start - byteLength segment) length
    else
      let size := min length (byteLength segment - start)
      (segment, start, size) ::
        if length - size = 0 then [] else segmentWindows byteLength segments 0 (length - size)

/-- `_segment_byte_ranges`, `gpu.py:287–299`: segments with the start and the size of a window. -/
def segmentByteRanges {α : Type} (byteLength : α → Nat) (segments : List α) (start length : Int) :
    Except PyError (List (α × Nat × Nat)) :=
  if start < 0 ∨ length ≤ 0 ∨ ((segments.map byteLength).sum : Int) < start + length then
    .error (.layoutError "file byte range differs from page coverage")
  else .ok (segmentWindows byteLength segments start.toNat length.toNat)

/-- `target.copy_(host[cursor : cursor + length])`, or the other direction, where element `k` of
the target is at `loc k`. -/
def copyRange (toDevice : Bool) (loc : Nat → Nat × Nat) (cursor length : Nat)
    (p : PageMemory × Bytes) : PageMemory × Bytes :=
  if toDevice then (scatter p.1 loc ((p.2.drop cursor).take length), p.2)
  else (p.1, p.2.take cursor ++ gather p.1 loc length ++ p.2.drop (cursor + length))

/-- Where a copy stands. -/
structure CopyState where
  memory : PageMemory
  host : Bytes
  indexCache : Option IndexCache
  cursor : Nat
  pageIndex : Nat

/-- A step of a copy. -/
def CopyState.copy (s : CopyState) (toDevice : Bool) (loc : Nat → Nat × Nat) (length pages : Nat) :
    CopyState :=
  let out := copyRange toDevice loc s.cursor length (s.memory, s.host)
  { s with memory := out.1, host := out.2, cursor := s.cursor + length, pageIndex := s.pageIndex + pages }

/-- `layer.pages[pages[i]]`. -/
def pageAt (layer : PageLayer) (pages : List Nat) (i : Nat) : Except PyError Nat :=
  match pages[i]? with
  | none => .error (.indexError "tuple index out of range")
  | some page =>
    if page < layer.blocks then .ok page
    else .error (.indexError "index is out of bounds for dimension 0")

/-- The partial head page, `gpu.py:423–430`. -/
def copyHead (layer : PageLayer) (pages : List Nat) (offset : Nat) (toDevice : Bool)
    (s : CopyState) : Except PyError CopyState :=
  if offset = 0 then .ok s
  else do
    let length := min (layer.pageSizeBytes - offset) s.host.length
    let page ← pageAt layer pages 0
    pure (s.copy toDevice (fun k ↦ (page, offset + k)) length 1)

/-- The index of pages, `gpu.py:433–441`: reused when it was made for the same pages. -/
def pageIndexes (layer : PageLayer) (ids : List Nat) :
    Option IndexCache → List Nat × Option IndexCache
  | none => (ids, none)
  | some cache =>
    match cache with
    | some (key, indexes) =>
      if key = (ids, layer.device) then (indexes, some cache)
      else (ids, some (some ((ids, layer.device), ids)))
    | none => (ids, some (some ((ids, layer.device), ids)))

/-- The whole pages, `gpu.py:431–451`. -/
def copyWhole (layer : PageLayer) (pages : List Nat) (toDevice : Bool) (s : CopyState) :
    Except PyError CopyState :=
  let whole := (s.host.length - s.cursor) / layer.pageSizeBytes
  if whole = 0 then .ok s
  else
    let (indexes, indexCache) :=
      pageIndexes layer ((pages.drop s.pageIndex).take whole) s.indexCache
    if ∃ page ∈ indexes, layer.blocks ≤ page then
      .error (.indexError "index out of range in self")
    else .ok ({ s with indexCache }.copy toDevice
      (fun k ↦ (indexes.getD (k / layer.pageSizeBytes) 0, k % layer.pageSizeBytes))
      (whole * layer.pageSizeBytes) whole)

/-- The partial tail page, `gpu.py:452–457`. -/
def copyTail (layer : PageLayer) (pages : List Nat) (toDevice : Bool) (s : CopyState) :
    Except PyError CopyState :=
  if s.cursor < s.host.length then do
    let page ← pageAt layer pages s.pageIndex
    pure (s.copy toDevice (fun k ↦ (page, k)) (s.host.length - s.cursor) 0)
  else .ok s

/-- Pages that a range touches, `gpu.py:407`. -/
def pageCount (layer : PageLayer) (byteStart length : Nat) : Nat :=
  (byteStart % layer.pageSizeBytes + length + layer.pageSizeBytes - 1) / layer.pageSizeBytes

/-- `_copy_page_bytes`, `gpu.py:402–457`. -/
def copyPageBytes (layer : PageLayer) (physicalPages : List Nat) (byteStart : Nat)
    (toDevice : Bool) (indexCache : Option IndexCache) (memory : PageMemory) (host : Bytes) :
    Except PyError CopyState :=
  let first := byteStart / layer.pageSizeBytes
  let offset := byteStart % layer.pageSizeBytes
  let count := pageCount layer byteStart host.length
  let pages := (physicalPages.drop first).take count
  let start : CopyState := ⟨memory, host, indexCache, 0, 0⟩
  if pages.length ≠ count then .error (.layoutError "transfer page range is incomplete")
  else
    match contiguousPageSpan layer pages with
    | some page =>
      if layer.blocks < page + count then
        .error (.runtimeError "start + length exceeds dimension size")
      else .ok (start.copy toDevice (fun k ↦ (page + (offset + k) / layer.pageSizeBytes,
        (offset + k) % layer.pageSizeBytes)) host.length 0)
    | none => do
      let s ← copyHead layer pages offset toDevice start
      let s ← copyWhole layer pages toDevice s
      copyTail layer pages toDevice s

/-! ### Ranges behind each other -/

private theorem copyRange_add (toDevice : Bool) (loc : Nat → Nat × Nat) {m n : Nat}
    (p : PageMemory × Bytes) (h : m + n ≤ p.2.length) :
    copyRange toDevice (fun k ↦ loc (m + k)) m n (copyRange toDevice loc 0 m p) =
      copyRange toDevice loc 0 (m + n) p := by
  unfold copyRange
  cases toDevice with
  | true =>
    simp only [if_true, List.drop_zero, Prod.mk.injEq, and_true]
    have hsplit : p.2.take (m + n) = p.2.take m ++ (p.2.drop m).take n := List.take_add
    have hlength : (p.2.take m).length = m := by
      rw [List.length_take]
      omega
    rw [hsplit, scatter_append, hlength]
  | false =>
    have hlength : (gather p.1 loc m).length = m := length_gather p.1 loc m
    simp only [Bool.false_eq_true, if_false, List.take_zero, List.nil_append, Nat.zero_add,
      Prod.mk.injEq, true_and]
    have hdrop : (gather p.1 loc m ++ p.2.drop m).drop (m + n) = p.2.drop (m + n) := by
      rw [List.drop_append, List.drop_of_length_le (by omega), List.nil_append, List.drop_drop,
        hlength, Nat.add_sub_cancel_left]
    rw [List.take_left' hlength, gather_add, hdrop]

private theorem copyRange_congr (toDevice : Bool) {loc loc' : Nat → Nat × Nat} {cursor length : Nat}
    (h : ∀ k < length, loc k = loc' k) (p : PageMemory × Bytes) :
    copyRange toDevice loc cursor length p = copyRange toDevice loc' cursor length p := by
  unfold copyRange
  have htake : ((p.2.drop cursor).take length).length ≤ length := List.length_take_le _ _
  rw [gather_congr p.1 h, scatter_congr p.1 fun k hk ↦ h k (Nat.lt_of_lt_of_le hk htake)]

private theorem length_copyRange {toDevice : Bool} {loc : Nat → Nat × Nat} {cursor length : Nat}
    {p : PageMemory × Bytes} (h : cursor + length ≤ p.2.length) :
    (copyRange toDevice loc cursor length p).2.length = p.2.length := by
  unfold copyRange
  split
  · rfl
  · rw [List.length_append, List.length_append, List.length_take, length_gather, List.length_drop]
    omega

/-! ### The flat string of pages -/

/-- Page and byte of a position in the bytes of a list of pages. -/
def byteLocation (pageBytes : Nat) (ids : List Nat) (j : Nat) : Nat × Nat :=
  (ids.getD (j / pageBytes) 0, j % pageBytes)

/-- An index is of the pages it was made for. -/
def CacheOk (indexCache : Option IndexCache) : Prop :=
  ∀ key indexes, indexCache = some (some (key, indexes)) → indexes = key.1

/-- The first bytes of the range have been copied. -/
structure Copied (layer : PageLayer) (ids : List Nat) (byteStart : Nat) (toDevice : Bool)
    (p : PageMemory × Bytes) (s : CopyState) : Prop where
  copied : (s.memory, s.host) = copyRange toDevice
    (fun k ↦ byteLocation layer.pageSizeBytes ids (byteStart + k)) 0 s.cursor p
  cursor_le : s.cursor ≤ p.2.length
  cache : CacheOk s.indexCache

/-- While bytes are left, the copy stands at the start of its next page. -/
def AtPage (layer : PageLayer) (byteStart length : Nat) (s : CopyState) : Prop :=
  s.cursor < length → byteStart + s.cursor =
    (byteStart / layer.pageSizeBytes + s.pageIndex) * layer.pageSizeBytes

section

variable {layer : PageLayer} {ids : List Nat} {byteStart : Nat} {toDevice : Bool}
  {p : PageMemory × Bytes} {s : CopyState}

private theorem Copied.length_host (h : Copied layer ids byteStart toDevice p s) :
    s.host.length = p.2.length := by
  have hhost := congrArg Prod.snd h.copied
  rw [show s.host = _ from hhost, length_copyRange (by rw [Nat.zero_add]; exact h.cursor_le)]

private theorem Copied.copy (h : Copied layer ids byteStart toDevice p s) {loc : Nat → Nat × Nat}
    {length : Nat} (hle : s.cursor + length ≤ p.2.length) (hloc : ∀ k < length,
      loc k = byteLocation layer.pageSizeBytes ids (byteStart + s.cursor + k)) (pages : Nat) :
    Copied layer ids byteStart toDevice p (s.copy toDevice loc length pages) := by
  refine ⟨?_, hle, h.cache⟩
  unfold CopyState.copy
  dsimp only
  rw [h.copied, copyRange_congr toDevice hloc]
  have hadd := copyRange_add toDevice
    (fun k ↦ byteLocation layer.pageSizeBytes ids (byteStart + k)) p hle
  simp only [← Nat.add_assoc] at hadd
  exact hadd

private theorem Copied.start {indexCache : Option IndexCache} (h : CacheOk indexCache)
    (layer : PageLayer) (ids : List Nat) (byteStart : Nat) (toDevice : Bool)
    (p : PageMemory × Bytes) :
    Copied layer ids byteStart toDevice p ⟨p.1, p.2, indexCache, 0, 0⟩ := by
  refine ⟨?_, Nat.zero_le _, h⟩
  unfold copyRange
  cases toDevice with
  | true => rfl
  | false => rfl

private theorem pageIndexes_eq {indexCache : Option IndexCache} (h : CacheOk indexCache)
    (ids : List Nat) :
    (pageIndexes layer ids indexCache).1 = ids ∧ CacheOk (pageIndexes layer ids indexCache).2 := by
  have hfresh : CacheOk (some (some ((ids, layer.device), ids))) := by
    intro key indexes heq
    cases heq
    rfl
  cases indexCache with
  | none => exact ⟨rfl, h⟩
  | some cache =>
    cases cache with
    | none => exact ⟨rfl, hfresh⟩
    | some entry =>
      obtain ⟨key, indexes⟩ := entry
      unfold pageIndexes
      dsimp only
      split
      · next hkey =>
        refine ⟨?_, h⟩
        rw [h key indexes rfl, hkey]
      · exact ⟨rfl, hfresh⟩

private theorem byteLocation_add (layer : PageLayer) (ids : List Nat) (byteStart k : Nat) :
    byteLocation layer.pageSizeBytes ids (byteStart + k) =
      (ids.getD (byteStart / layer.pageSizeBytes +
        (byteStart % layer.pageSizeBytes + k) / layer.pageSizeBytes) 0,
        (byteStart % layer.pageSizeBytes + k) % layer.pageSizeBytes) := by
  have hsplit : byteStart + k = layer.pageSizeBytes * (byteStart / layer.pageSizeBytes) +
      (byteStart % layer.pageSizeBytes + k) := by
    rw [← Nat.add_assoc, Nat.div_add_mod]
  unfold byteLocation
  rw [hsplit, Nat.mul_add_div layer.pageSizeBytes_pos, Nat.mul_add_mod]

/-- The locations behind a page boundary. -/
theorem byteLocation_aligned {pageBytes : Nat} (hpos : 0 < pageBytes) (ids : List Nat)
    {start page : Nat} (h : start = page * pageBytes) (k : Nat) :
    byteLocation pageBytes ids (start + k) =
      (ids.getD (page + k / pageBytes) 0, k % pageBytes) := by
  unfold byteLocation
  rw [h, Nat.mul_comm, Nat.mul_add_div hpos, Nat.mul_add_mod]

/-- A range inside the bytes of the pages of a layer. -/
structure InRange (layer : PageLayer) (ids : List Nat) (byteStart length : Nat) : Prop where
  ids_lt : ∀ id ∈ ids, id < layer.blocks
  length_pos : 0 < length
  le : byteStart + length ≤ ids.length * layer.pageSizeBytes

namespace InRange

variable {length : Nat}

private theorem pageCount_le (h : InRange layer ids byteStart length) :
    byteStart / layer.pageSizeBytes + pageCount layer byteStart length ≤ ids.length := by
  have hpos := layer.pageSizeBytes_pos
  have hle := h.le
  have hdiv := Nat.div_add_mod byteStart layer.pageSizeBytes
  have hmul := Nat.div_mul_le_self
    (byteStart % layer.pageSizeBytes + length + layer.pageSizeBytes - 1) layer.pageSizeBytes
  rw [← Nat.lt_add_one_iff]
  apply Nat.lt_of_mul_lt_mul_right (a := layer.pageSizeBytes)
  unfold pageCount
  rw [Nat.add_mul, Nat.add_mul, Nat.mul_comm (byteStart / layer.pageSizeBytes)]
  omega

private theorem div_lt_pageCount {k : Nat} (hk : k < length) (layer : PageLayer) (byteStart : Nat) :
    (byteStart % layer.pageSizeBytes + k) / layer.pageSizeBytes <
      pageCount layer byteStart length := by
  have hpos := layer.pageSizeBytes_pos
  unfold pageCount
  rw [Nat.div_lt_iff_lt_mul hpos]
  have hdiv := Nat.div_add_mod
    (byteStart % layer.pageSizeBytes + length + layer.pageSizeBytes - 1) layer.pageSizeBytes
  have hmod := Nat.mod_lt
    (byteStart % layer.pageSizeBytes + length + layer.pageSizeBytes - 1) hpos
  rw [Nat.mul_comm] at hdiv
  omega

private theorem getElem?_pages (h : InRange layer ids byteStart length) {i : Nat}
    (hi : i < pageCount layer byteStart length) :
    ((ids.drop (byteStart / layer.pageSizeBytes)).take
        (pageCount layer byteStart length))[i]? =
      some (ids.getD (byteStart / layer.pageSizeBytes + i) 0) := by
  have hle := h.pageCount_le
  have hlt : byteStart / layer.pageSizeBytes + i < ids.length := by omega
  rw [List.getElem?_take_of_lt hi, List.getElem?_drop, List.getElem?_eq_getElem hlt,
    List.getD_eq_getElem?_getD, List.getElem?_eq_getElem hlt, Option.getD_some]

private theorem page_lt (h : InRange layer ids byteStart length) {i : Nat}
    (hi : i < pageCount layer byteStart length) :
    ids.getD (byteStart / layer.pageSizeBytes + i) 0 < layer.blocks := by
  have hle := h.pageCount_le
  have hlt : byteStart / layer.pageSizeBytes + i < ids.length := by omega
  rw [List.getD_eq_getElem?_getD, List.getElem?_eq_getElem hlt, Option.getD_some]
  exact h.ids_lt _ (List.getElem_mem hlt)

private theorem pageAt_eq (h : InRange layer ids byteStart length) {i : Nat}
    (hi : i < pageCount layer byteStart length) :
    pageAt layer ((ids.drop (byteStart / layer.pageSizeBytes)).take
        (pageCount layer byteStart length)) i =
      .ok (ids.getD (byteStart / layer.pageSizeBytes + i) 0) := by
  unfold pageAt
  rw [h.getElem?_pages hi]
  exact if_pos (h.page_lt hi)

/-- The partial head page. -/
theorem copyHead_ok (h : InRange layer ids byteStart p.2.length)
    {indexCache : Option IndexCache} (hcache : CacheOk indexCache) :
    ∃ s, copyHead layer ((ids.drop (byteStart / layer.pageSizeBytes)).take
        (pageCount layer byteStart p.2.length)) (byteStart % layer.pageSizeBytes) toDevice
        ⟨p.1, p.2, indexCache, 0, 0⟩ = .ok s ∧
      Copied layer ids byteStart toDevice p s ∧ AtPage layer byteStart p.2.length s := by
  have hpos := layer.pageSizeBytes_pos
  have hstart := Copied.start hcache layer ids byteStart toDevice p
  have hdiv := Nat.div_add_mod byteStart layer.pageSizeBytes
  have hmod := Nat.mod_lt byteStart hpos
  unfold copyHead
  by_cases hoffset : byteStart % layer.pageSizeBytes = 0
  · rw [if_pos hoffset]
    refine ⟨_, rfl, hstart, fun _ ↦ ?_⟩
    dsimp only
    rw [Nat.add_zero, Nat.add_zero, Nat.mul_comm]
    omega
  · have hfirst := div_lt_pageCount h.length_pos layer byteStart
    rw [Nat.add_zero, Nat.div_eq_of_lt hmod] at hfirst
    have hloc : ∀ k < min (layer.pageSizeBytes - byteStart % layer.pageSizeBytes) p.2.length,
        (ids.getD (byteStart / layer.pageSizeBytes + 0) 0, byteStart % layer.pageSizeBytes + k) =
          byteLocation layer.pageSizeBytes ids (byteStart + 0 + k) := by
      intro k hk
      have hlt : byteStart % layer.pageSizeBytes + k < layer.pageSizeBytes := by omega
      rw [Nat.add_zero byteStart, byteLocation_add, Nat.div_eq_of_lt hlt, Nat.mod_eq_of_lt hlt]
    rw [if_neg hoffset, h.pageAt_eq hfirst]
    refine ⟨_, rfl, hstart.copy ?_ hloc 1, fun hleft ↦ ?_⟩
    · exact Nat.le_trans (Nat.le_of_eq (Nat.zero_add _)) (Nat.min_le_right _ _)
    · have hleft : 0 + min (layer.pageSizeBytes - byteStart % layer.pageSizeBytes) p.2.length <
          p.2.length := hleft
      change byteStart +
        (0 + min (layer.pageSizeBytes - byteStart % layer.pageSizeBytes) p.2.length) =
          (byteStart / layer.pageSizeBytes + (0 + 1)) * layer.pageSizeBytes
      rw [Nat.add_mul, Nat.mul_comm (byteStart / layer.pageSizeBytes)]
      omega

/-- The pages behind a boundary that the copy has reached are touched by the range. -/
theorem page_lt_pageCount {layer : PageLayer} {byteStart length cursor pageIndex k : Nat}
    (hk : cursor + k < length)
    (hpage : byteStart + cursor =
      (byteStart / layer.pageSizeBytes + pageIndex) * layer.pageSizeBytes) :
    pageIndex + k / layer.pageSizeBytes < pageCount layer byteStart length := by
  have hpos := layer.pageSizeBytes_pos
  have hdiv := Nat.div_add_mod byteStart layer.pageSizeBytes
  have hlt := div_lt_pageCount hk layer byteStart
  have hsplit : byteStart % layer.pageSizeBytes + (cursor + k) =
      layer.pageSizeBytes * pageIndex + k := by
    rw [Nat.add_mul, Nat.mul_comm (byteStart / layer.pageSizeBytes), Nat.mul_comm pageIndex] at hpage
    omega
  rwa [hsplit, Nat.mul_add_div hpos] at hlt

/-- The whole pages. -/
theorem copyWhole_ok (h : InRange layer ids byteStart p.2.length)
    (hs : Copied layer ids byteStart toDevice p s) (hpage : AtPage layer byteStart p.2.length s) :
    ∃ s', copyWhole layer ((ids.drop (byteStart / layer.pageSizeBytes)).take
        (pageCount layer byteStart p.2.length)) toDevice s = .ok s' ∧
      Copied layer ids byteStart toDevice p s' ∧ AtPage layer byteStart p.2.length s' ∧
      p.2.length < s'.cursor + layer.pageSizeBytes := by
  have hpos := layer.pageSizeBytes_pos
  have hcursor := hs.cursor_le
  have hdiv := Nat.div_add_mod (p.2.length - s.cursor) layer.pageSizeBytes
  have hmod := Nat.mod_lt (p.2.length - s.cursor) hpos
  unfold copyWhole
  dsimp only
  rw [hs.length_host]
  by_cases hwhole : (p.2.length - s.cursor) / layer.pageSizeBytes = 0
  · rw [if_pos hwhole]
    rw [hwhole, Nat.mul_zero] at hdiv
    exact ⟨s, rfl, hs, hpage, by omega⟩
  · rw [if_neg hwhole]
    generalize hcount : (p.2.length - s.cursor) / layer.pageSizeBytes = whole at *
    have hbytes : whole * layer.pageSizeBytes ≤ p.2.length - s.cursor := by
      rw [Nat.mul_comm]
      omega
    have hroom : layer.pageSizeBytes ≤ whole * layer.pageSizeBytes :=
      Nat.le_mul_of_pos_left _ (by omega)
    have hat := hpage (by omega)
    obtain ⟨hindexes, hcache⟩ := @pageIndexes_eq layer s.indexCache hs.cache
      ((((ids.drop (byteStart / layer.pageSizeBytes)).take
        (pageCount layer byteStart p.2.length)).drop s.pageIndex).take whole)
    generalize pageIndexes layer _ s.indexCache = found at hindexes hcache
    obtain ⟨indexes, indexCache⟩ := found
    dsimp only at hindexes hcache ⊢
    have hget : ∀ i < whole, indexes[i]? =
        some (ids.getD (byteStart / layer.pageSizeBytes + (s.pageIndex + i)) 0) := by
      intro i hi
      have hlt : s.pageIndex + i < pageCount layer byteStart p.2.length := by
        have hk : s.cursor + i * layer.pageSizeBytes < p.2.length := by
          have := Nat.mul_lt_mul_of_pos_right hi hpos
          omega
        have := page_lt_pageCount hk hat
        rwa [Nat.mul_div_cancel _ hpos] at this
      rw [hindexes, List.getElem?_take_of_lt hi, List.getElem?_drop, h.getElem?_pages hlt]
    have hlength : indexes.length ≤ whole := by
      rw [hindexes]
      exact List.length_take_le _ _
    have hinside : ¬ ∃ page ∈ indexes, layer.blocks ≤ page := by
      rintro ⟨page, hmem, hle⟩
      obtain ⟨i, hi⟩ := List.mem_iff_getElem?.mp hmem
      have hlt : i < whole := Nat.lt_of_lt_of_le (List.getElem?_eq_some_iff.mp hi).1 hlength
      rw [hget i hlt, Option.some.injEq] at hi
      have hk : s.cursor + i * layer.pageSizeBytes < p.2.length := by
        have := Nat.mul_lt_mul_of_pos_right hlt hpos
        omega
      have hpageLt := page_lt_pageCount hk hat
      rw [Nat.mul_div_cancel _ hpos] at hpageLt
      have := h.page_lt hpageLt
      omega
    have hloc : ∀ k < whole * layer.pageSizeBytes,
        (indexes.getD (k / layer.pageSizeBytes) 0, k % layer.pageSizeBytes) =
          byteLocation layer.pageSizeBytes ids (byteStart + s.cursor + k) := by
      intro k hk
      have hlt : k / layer.pageSizeBytes < whole := (Nat.div_lt_iff_lt_mul hpos).mpr hk
      rw [byteLocation_aligned hpos ids hat, List.getD_eq_getElem?_getD, hget _ hlt,
        Option.getD_some, Nat.add_assoc]
    have hs' : Copied layer ids byteStart toDevice p { s with indexCache } :=
      ⟨hs.copied, hs.cursor_le, hcache⟩
    rw [if_neg hinside]
    refine ⟨_, rfl, hs'.copy ?_ hloc whole, fun _ ↦ ?_, ?_⟩
    · change s.cursor + whole * layer.pageSizeBytes ≤ p.2.length
      omega
    · change byteStart + (s.cursor + whole * layer.pageSizeBytes) =
        (byteStart / layer.pageSizeBytes + (s.pageIndex + whole)) * layer.pageSizeBytes
      rw [← Nat.add_assoc, hat, ← Nat.add_mul, Nat.add_assoc]
    · change p.2.length < s.cursor + whole * layer.pageSizeBytes + layer.pageSizeBytes
      rw [Nat.mul_comm] at hdiv
      omega

/-- The partial tail page. -/
theorem copyTail_ok (h : InRange layer ids byteStart p.2.length)
    (hs : Copied layer ids byteStart toDevice p s) (hpage : AtPage layer byteStart p.2.length s)
    (hrest : p.2.length < s.cursor + layer.pageSizeBytes) :
    ∃ s', copyTail layer ((ids.drop (byteStart / layer.pageSizeBytes)).take
        (pageCount layer byteStart p.2.length)) toDevice s = .ok s' ∧
      Copied layer ids byteStart toDevice p s' ∧ s'.cursor = p.2.length := by
  have hpos := layer.pageSizeBytes_pos
  have hcursor := hs.cursor_le
  unfold copyTail
  rw [hs.length_host]
  by_cases hleft : s.cursor < p.2.length
  · have hat := hpage hleft
    have hlt : s.pageIndex + 0 / layer.pageSizeBytes < pageCount layer byteStart p.2.length :=
      page_lt_pageCount hleft hat
    rw [Nat.zero_div, Nat.add_zero] at hlt
    have hloc : ∀ k < p.2.length - s.cursor,
        (ids.getD (byteStart / layer.pageSizeBytes + s.pageIndex) 0, k) =
          byteLocation layer.pageSizeBytes ids (byteStart + s.cursor + k) := by
      intro k hk
      have hsmall : k < layer.pageSizeBytes := by omega
      rw [byteLocation_aligned hpos ids hat, Nat.div_eq_of_lt hsmall, Nat.mod_eq_of_lt hsmall,
        Nat.add_zero]
    rw [if_pos hleft, h.pageAt_eq hlt]
    refine ⟨_, rfl, hs.copy ?_ hloc 0, ?_⟩
    · omega
    · change s.cursor + (p.2.length - s.cursor) = p.2.length
      omega
  · rw [if_neg hleft]
    exact ⟨s, rfl, hs, by omega⟩

/-- The pages of a dense span follow each other. -/
theorem contiguousPageSpan_some {pages : List Nat} {page : Nat}
    (h : contiguousPageSpan layer pages = some page) {i : Nat} (hi : i < pages.length) :
    pages[i]? = some (page + i) := by
  unfold contiguousPageSpan at h
  split at h
  · cases h
  · split at h
    · cases h
    split at h
    · cases h
    · next hspan =>
      cases h
      rw [not_not] at hspan
      rw [hspan, List.getElem?_map, List.getElem?_range hi, Option.map_some]

/-- The copy is one copy between the host and the flat string of the pages. -/
theorem copyPageBytes_ok (h : InRange layer ids byteStart p.2.length)
    {indexCache : Option IndexCache} (hcache : CacheOk indexCache) (toDevice : Bool) :
    ∃ s, copyPageBytes layer ids byteStart toDevice indexCache p.1 p.2 = .ok s ∧
      (s.memory, s.host) = copyRange toDevice
        (fun k ↦ byteLocation layer.pageSizeBytes ids (byteStart + k)) 0 p.2.length p ∧
      CacheOk s.indexCache := by
  have hpages : ((ids.drop (byteStart / layer.pageSizeBytes)).take
      (pageCount layer byteStart p.2.length)).length = pageCount layer byteStart p.2.length := by
    have := h.pageCount_le
    rw [List.length_take, List.length_drop]
    omega
  have hstart := Copied.start hcache layer ids byteStart toDevice p
  unfold copyPageBytes
  dsimp only
  rw [if_neg (not_not.mpr hpages)]
  split
  · next page hspan =>
    have hget : ∀ i < pageCount layer byteStart p.2.length,
        ids.getD (byteStart / layer.pageSizeBytes + i) 0 = page + i := by
      intro i hi
      have hsome := contiguousPageSpan_some hspan (hpages.symm ▸ hi)
      rw [h.getElem?_pages hi] at hsome
      exact Option.some.inj hsome
    have hloc : ∀ k < p.2.length, (page + (byteStart % layer.pageSizeBytes + k) /
        layer.pageSizeBytes, (byteStart % layer.pageSizeBytes + k) % layer.pageSizeBytes) =
          byteLocation layer.pageSizeBytes ids (byteStart + 0 + k) := by
      intro k hk
      rw [Nat.add_zero, byteLocation_add, hget _ (div_lt_pageCount hk layer byteStart)]
    have hcopied := hstart.copy (Nat.le_of_eq (Nat.zero_add _)) hloc 0
    have hblocks : ¬ layer.blocks < page + pageCount layer byteStart p.2.length := by
      have hzero := Nat.zero_lt_of_lt (div_lt_pageCount h.length_pos layer byteStart)
      have hlast := h.page_lt (by omega :
        pageCount layer byteStart p.2.length - 1 < pageCount layer byteStart p.2.length)
      rw [hget _ (by omega)] at hlast
      omega
    rw [if_neg hblocks]
    refine ⟨_, rfl, ?_, hcopied.cache⟩
    have hall := hcopied.copied
    have hcursor : (CopyState.copy ⟨p.1, p.2, indexCache, 0, 0⟩ toDevice
        (fun k ↦ (page + (byteStart % layer.pageSizeBytes + k) / layer.pageSizeBytes,
          (byteStart % layer.pageSizeBytes + k) % layer.pageSizeBytes)) p.2.length 0).cursor =
        p.2.length := Nat.zero_add _
    rw [hcursor] at hall
    exact hall
  · obtain ⟨s, hhead, hs, hpage⟩ := @copyHead_ok layer ids byteStart toDevice p h indexCache hcache
    obtain ⟨s', hwhole, hs', hpage', hrest⟩ := h.copyWhole_ok hs hpage
    obtain ⟨s'', htail, hs'', hcursor⟩ := h.copyTail_ok hs' hpage' hrest
    refine ⟨s'', ?_, ?_, hs''.cache⟩
    · rw [hhead, ok_bind, hwhole, ok_bind, htail]
    · rw [hs''.copied, hcursor]

end InRange

end

/-! ### Windows of segments -/

section

variable {α : Type} {byteLength : α → Nat}

/-- A window is a nonempty part of one of the segments. -/
theorem mem_segmentWindows {segments : List α} {start length : Nat} (hlength : 0 < length)
    {window : α × Nat × Nat} (h : window ∈ segmentWindows byteLength segments start length) :
    window.1 ∈ segments ∧ 0 < window.2.2 ∧ window.2.1 + window.2.2 ≤ byteLength window.1 := by
  induction segments generalizing start length with
  | nil => cases h
  | cons segment segments ih =>
    unfold segmentWindows at h
    split at h
    · obtain ⟨hmem, hwindow⟩ := ih hlength h
      exact ⟨List.mem_cons_of_mem _ hmem, hwindow⟩
    · dsimp only at h
      rcases List.mem_cons.mp h with rfl | h
      · exact ⟨List.mem_cons_self, by dsimp only; omega, by dsimp only; omega⟩
      · split at h
        · cases h
        · obtain ⟨hmem, hwindow⟩ := ih (by omega) h
          exact ⟨List.mem_cons_of_mem _ hmem, hwindow⟩

/-- The windows are the range of the segments behind each other. -/
theorem flatMap_segmentWindows {β : Type} {content : α → List β}
    (hcontent : ∀ a, (content a).length = byteLength a) {segments : List α} {start length : Nat}
    (h : start + length ≤ (segments.map byteLength).sum) :
    ((segmentWindows byteLength segments start length).flatMap fun w ↦
        ((content w.1).drop w.2.1).take w.2.2) =
      ((segments.flatMap content).drop start).take length := by
  induction segments generalizing start length with
  | nil =>
    rw [segmentWindows, List.flatMap_nil, List.flatMap_nil, List.drop_nil, List.take_nil]
  | cons segment segments ih =>
    rw [List.map_cons, List.sum_cons] at h
    have hsegment := hcontent segment
    unfold segmentWindows
    rw [List.flatMap_cons, List.drop_append, hsegment]
    split
    · next hskip =>
      have hnone : (content segment).drop start = [] := List.drop_of_length_le (by omega)
      rw [ih (by omega), hnone, List.nil_append]
    · next hstart =>
      have hdrop : ((content segment).drop start).length = byteLength segment - start := by
        rw [List.length_drop, hsegment]
      dsimp only
      rw [List.flatMap_cons, Nat.sub_eq_zero_of_le (by omega : start ≤ byteLength segment),
        List.drop_zero, List.take_append, hdrop]
      split
      · next hdone =>
        have hsize : min length (byteLength segment - start) = length := by omega
        rw [hsize, Nat.sub_eq_zero_of_le (by omega), List.take_zero, List.flatMap_nil]
      · next hmore =>
        have hsize : min length (byteLength segment - start) = byteLength segment - start := by omega
        have hfirst : ∀ n, byteLength segment - start ≤ n →
            ((content segment).drop start).take n = (content segment).drop start := fun n hn ↦
          List.take_of_length_le (by omega)
        rw [hsize, ih (by omega), List.drop_zero, hfirst length (by omega)]
        dsimp only
        rw [hfirst _ (Nat.le_refl _)]

end

/-! ### Exact copies -/

private theorem byteLocation_inj {pageBytes : Nat} (hpos : 0 < pageBytes) {ids : List Nat}
    (hnodup : ids.Nodup) {i j : Nat} (hi : i < ids.length * pageBytes)
    (hj : j < ids.length * pageBytes)
    (h : byteLocation pageBytes ids i = byteLocation pageBytes ids j) : i = j := by
  have hdivi : i / pageBytes < ids.length := (Nat.div_lt_iff_lt_mul hpos).mpr hi
  have hdivj : j / pageBytes < ids.length := (Nat.div_lt_iff_lt_mul hpos).mpr hj
  obtain ⟨hpage, hbyte⟩ := Prod.ext_iff.mp h
  have hpage : ids.getD (i / pageBytes) 0 = ids.getD (j / pageBytes) 0 := hpage
  have hbyte : i % pageBytes = j % pageBytes := hbyte
  rw [List.getD_eq_getElem?_getD, List.getD_eq_getElem?_getD, List.getElem?_eq_getElem hdivi,
    List.getElem?_eq_getElem hdivj, Option.getD_some, Option.getD_some] at hpage
  have hdiv := (hnodup.getElem_inj_iff).mp hpage
  rw [← Nat.div_add_mod i pageBytes, ← Nat.div_add_mod j pageBytes, hdiv, hbyte]

/-- Host byte `k` is at its place in the pages, and nothing else has changed. -/
structure CopiedExactly (layer : PageLayer) (ids : List Nat) (byteStart : Nat) (toDevice : Bool)
    (memory : PageMemory) (host : Bytes) (s : CopyState) : Prop where
  bytes : ∀ k < host.length, s.host[k]? = some (s.memory
    (ids.getD ((byteStart + k) / layer.pageSizeBytes) 0, (byteStart + k) % layer.pageSizeBytes))
  source : if toDevice then s.host = host else s.memory = memory
  length : s.host.length = host.length
  others : ∀ page byte, (∀ k < host.length,
    (ids.getD ((byteStart + k) / layer.pageSizeBytes) 0, (byteStart + k) % layer.pageSizeBytes) ≠
      (page, byte)) → s.memory (page, byte) = memory (page, byte)

private theorem copiedExactly_copyRange {layer : PageLayer} {ids : List Nat} (hnodup : ids.Nodup)
    {byteStart : Nat} {memory : PageMemory} {host : Bytes}
    (hle : byteStart + host.length ≤ ids.length * layer.pageSizeBytes) {toDevice : Bool}
    {s : CopyState} (h : (s.memory, s.host) = copyRange toDevice
      (fun k ↦ byteLocation layer.pageSizeBytes ids (byteStart + k)) 0 host.length (memory, host)) :
    CopiedExactly layer ids byteStart toDevice memory host s := by
  obtain ⟨hmemory, hhost⟩ := Prod.mk.inj h
  cases toDevice with
  | true =>
    have hhost : s.host = host := hhost
    have hmemory : s.memory = scatter memory
        (fun k ↦ byteLocation layer.pageSizeBytes ids (byteStart + k))
        ((host.drop 0).take host.length) := hmemory
    rw [List.drop_zero, List.take_length] at hmemory
    refine ⟨fun k hk ↦ ?_, hhost, by rw [hhost], fun page byte hother ↦ ?_⟩
    · have hinj : ∀ i < host.length, ∀ j < host.length,
          byteLocation layer.pageSizeBytes ids (byteStart + i) =
            byteLocation layer.pageSizeBytes ids (byteStart + j) → i = j := by
        intro i hi j hj heq
        have := byteLocation_inj layer.pageSizeBytes_pos hnodup (by omega) (by omega) heq
        omega
      rw [hhost, hmemory]
      exact (scatter_at memory hinj hk).symm
    · rw [hmemory]
      exact scatter_frame memory hother
  | false =>
    have hmemory : s.memory = memory := hmemory
    have hhost : s.host = host.take 0 ++ gather memory
        (fun k ↦ byteLocation layer.pageSizeBytes ids (byteStart + k)) host.length ++
          host.drop (0 + host.length) := hhost
    rw [List.take_zero, List.nil_append, Nat.zero_add, List.drop_length, List.append_nil] at hhost
    refine ⟨fun k hk ↦ ?_, hmemory, by rw [hhost, length_gather], fun page byte _ ↦ ?_⟩
    · rw [hhost, getElem?_gather _ _ hk, hmemory]
      rfl
    · rw [hmemory]

/-- A copy of a byte range agrees with the flat string of its pages in both directions, on dense
and indexed storage, with or without an index that is reused, and the windows of a range of
segments are its bytes. -/
theorem page_byte_copies_exact (layer : PageLayer) {ids : List Nat} (hnodup : ids.Nodup)
    (hids : ∀ id ∈ ids, id < layer.blocks) {byteStart : Nat} (memory : PageMemory) {host : Bytes}
    (hhost : host ≠ []) (hle : byteStart + host.length ≤ ids.length * layer.pageSizeBytes)
    {indexCache : Option IndexCache} (hcache : CacheOk indexCache) (toDevice : Bool) :
    (∃ s, copyPageBytes layer ids byteStart toDevice indexCache memory host = .ok s ∧
      CopiedExactly layer ids byteStart toDevice memory host s ∧ CacheOk s.indexCache) ∧
    ∀ {α : Type} (byteLength : α → Nat) (segments : List α) (start length : Int),
      0 ≤ start → 0 < length → start + length ≤ ((segments.map byteLength).sum : Int) →
      ∃ windows, segmentByteRanges byteLength segments start length = .ok windows ∧
        (∀ window ∈ windows, window.1 ∈ segments ∧ 0 < window.2.2 ∧
          window.2.1 + window.2.2 ≤ byteLength window.1) ∧
        ∀ content : α → Bytes, (∀ a, (content a).length = byteLength a) →
          (windows.flatMap fun w ↦ ((content w.1).drop w.2.1).take w.2.2) =
            ((segments.flatMap content).drop start.toNat).take length.toNat := by
  constructor
  · have hrange : InRange layer ids byteStart (memory, host).2.length :=
      ⟨hids, List.length_pos_iff.mpr hhost, hle⟩
    obtain ⟨s, hs, hcopied, hcache'⟩ := hrange.copyPageBytes_ok hcache toDevice
    exact ⟨s, hs, copiedExactly_copyRange hnodup hle hcopied, hcache'⟩
  · intro α byteLength segments start length hstart hlength hsum
    refine ⟨_, if_neg (by omega), ?_, ?_⟩
    · intro window hwindow
      exact mem_segmentWindows (by omega) hwindow
    · intro content hcontent
      exact flatMap_segmentWindows hcontent (by omega)

/-- A layer of eight indexed pages of four bytes. -/
def eightPages : PageLayer := ⟨4, 8, false, 0, by decide⟩

/-- Pages of four bytes are filled out of order, and three segments are cut into windows. -/
theorem page_byte_copies_eightPages :
    (∃ s, copyPageBytes eightPages [5, 2, 7] 3 true (some none) (fun _ ↦ 0) [1, 2, 3, 4, 5, 6] =
        .ok s ∧
      CopiedExactly eightPages [5, 2, 7] 3 true (fun _ ↦ 0) [1, 2, 3, 4, 5, 6] s ∧
      CacheOk s.indexCache) ∧
    ∃ windows, segmentByteRanges id [4, 5, 6] 3 7 = .ok windows ∧
      (∀ window ∈ windows, window.1 ∈ [4, 5, 6] ∧ 0 < window.2.2 ∧
        window.2.1 + window.2.2 ≤ id window.1) := by
  have hcache : CacheOk (some none) := by
    intro key indexes h
    cases h
  have h := @page_byte_copies_exact eightPages [5, 2, 7] (by decide) (by decide) 3 (fun _ ↦ 0)
    [1, 2, 3, 4, 5, 6] (by decide) (by decide) (some none) hcache true
  obtain ⟨windows, hwindows, hmem, _⟩ :=
    h.2 id [4, 5, 6] 3 7 (by decide) (by decide) (by decide)
  exact ⟨h.1, windows, hwindows, hmem⟩

end SpoolCache.Mover

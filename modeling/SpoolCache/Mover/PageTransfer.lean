import SpoolCache.Base.OrderedDict
import SpoolCache.Base.Writes
import SpoolCache.Layout.Coverage
import SpoolCache.Mover.PageCopy

/-!
# Transfers of segments

`gpu.py:459–492` and `gpu.py:576–615`. A capture lays a range of the bytes of some segments into a
staging slot, and a receiver puts the ranges of a file it is passed back into pages. Both go
through `_copy_page_bytes` window by window. The stream order of the copies is left to the slots.
-/

namespace SpoolCache.Mover

open SpoolCache.Base SpoolCache.Layout

/-! ### State -/

/-- The bytes of the pages of every layer. Layers are separate memory: tensors that share their
storage are left out. -/
abbrev BankMemory := (Nat × String) × (Nat × Nat) → UInt8

/-- `_bound`, `gpu.py:325–346`. -/
abbrev BoundLayers := OrderedDict (Nat × String) PageLayer

/-- The pages of a layer. -/
def layerMemory (memory : BankMemory) (key : Nat × String) : PageMemory := fun p ↦ memory (key, p)

/-- Replace the pages of a layer. -/
def setLayer (memory : BankMemory) (key : Nat × String) (pages : PageMemory) : BankMemory :=
  fun x ↦ if x.1 = key then pages x.2 else memory x

section

variable (bound : BoundLayers) (selected : List (List Nat))

/-- The layer of a segment and its pages, `gpu.py:472–475` and `gpu.py:599–602`. -/
def segmentPages (segment : PageSlice) : Except PyError (PageLayer × List Nat) :=
  match bound.get? segment.layerKey with
  | none => .error (.keyError "layer is not bound")
  | some layer =>
    match selected[segment.groupIndex]? with
    | none => .error (.indexError "tuple index out of range")
    | some pages => .ok (layer, (pages.drop segment.pageStart).take segment.pageCount)

/-! ### Captures -/

/-- Where a capture stands. -/
structure CaptureState where
  slot : Bytes
  cursor : Nat
  indexCache : Option IndexCache

/-- One window of a capture, `gpu.py:471–481`. -/
def captureWindow (memory : BankMemory) (st : CaptureState) (window : PageSlice × Nat × Nat) :
    Except PyError CaptureState := do
  let (segment, offset, size) := window
  let (layer, pages) ← segmentPages bound selected segment
  let out ← copyPageBytes layer pages offset false st.indexCache
    (layerMemory memory segment.layerKey) ((st.slot.drop st.cursor).take size)
  pure ⟨st.slot.take st.cursor ++ out.host ++ st.slot.drop (st.cursor + size), st.cursor + size,
    out.indexCache⟩

/-- `_capture_packed`, `gpu.py:459–492`, on a slot with some bytes in it. -/
def capturePacked (slotBytes : Nat) (memory : BankMemory) (slot : Bytes) (segments : List PageSlice)
    (byteStart : Nat) (byteLength : Option Nat) : Except PyError Bytes :=
  let total := (segments.map PageSlice.byteLength).sum
  let length : Int := byteLength.elim ((total : Int) - byteStart) fun n ↦ n
  if ¬ (0 < length ∧ length ≤ slotBytes) then
    .error (.layoutError "capture range exceeds the fixed staging credit")
  else do
    let windows ← segmentByteRanges PageSlice.byteLength segments byteStart length
    let st ← windows.foldlM (captureWindow bound selected memory) ⟨slot, 0, some none⟩
    pure (st.slot.take st.cursor)

/-- The slices of a captured batch, `token_mover.py:112–127`. -/
def splitBatch (view : Bytes) : List (List PageSlice) → Nat → Except PyError (List Bytes)
  | [], offset =>
    if offset ≠ view.length then
      .error (.layoutError "captured token batch differs from geometry")
    else .ok []
  | parts :: rest, offset => do
    let length := (parts.map PageSlice.byteLength).sum
    let payloads ← splitBatch view rest (offset + length)
    pure ((view.drop offset).take length :: payloads)

/-- The payloads of the missing files of a batch, `token_mover.py:103–127`. -/
def captureBatch (slotBytes : Nat) (memory : BankMemory) (slot : Bytes)
    (files : List (List PageSlice)) : Except PyError (List Bytes) := do
  let view ← capturePacked bound selected slotBytes memory slot files.flatten 0 none
  splitBatch view files 0

/-- The pieces of a streamed file, `token_mover.py:160–177`, each on a slot of its own. -/
def captureStreamed (slotBytes step : Nat) (memory : BankMemory) (slots : Nat → Bytes)
    (parts : List PageSlice) : Except PyError (List Bytes) :=
  if slotBytes < step then
    .error (.layoutError "file authentication unit exceeds GPU staging credit")
  else
    let length := (parts.map PageSlice.byteLength).sum
    (List.range ((length + step - 1) / step)).mapM fun i ↦
      capturePacked bound selected slotBytes memory (slots i) parts (i * step)
        (some (min step (length - i * step)))

/-! ### Receivers -/

/-- Where a receiver stands. -/
structure ReceiveState where
  memory : BankMemory
  received : Nat
  indexCache : Option IndexCache

/-- One window of a range, `gpu.py:596–607`, with the place of its bytes in the range. -/
def receiveWindow (chunk : Bytes) (st : BankMemory × Nat × Option IndexCache)
    (window : PageSlice × Nat × Nat) : Except PyError (BankMemory × Nat × Option IndexCache) := do
  let (memory, cursor, indexCache) := st
  let (segment, offset, size) := window
  let (layer, pages) ← segmentPages bound selected segment
  let out ← copyPageBytes layer pages offset true indexCache
    (layerMemory memory segment.layerKey) ((chunk.drop cursor).take size)
  pure (setLayer memory segment.layerKey out.memory, cursor + size, out.indexCache)

/-- `receive`, `gpu.py:588–608`, of a pinned range. -/
def receiveChunk (slotBytes byteLength : Nat) (segments : List PageSlice) (st : ReceiveState)
    (chunk : Bytes) : Except PyError ReceiveState :=
  if ¬ (0 < chunk.length ∧ (chunk.length : Int) ≤ min (slotBytes : Int) (byteLength - st.received))
  then .error (.layoutError "token restore range differs from authenticated object")
  else do
    let windows ← segmentByteRanges PageSlice.byteLength segments st.received chunk.length
    let (memory, _, indexCache) ←
      windows.foldlM (receiveWindow bound selected chunk) (st.memory, 0, st.indexCache)
    pure ⟨memory, st.received + chunk.length, indexCache⟩

/-- `_restore_object_receiver`, `gpu.py:576–615`, with the ranges it is passed. -/
def receiveObject (slotBytes byteLength : Nat) (segments : List PageSlice) (memory : BankMemory)
    (chunks : List Bytes) : Except PyError BankMemory := do
  let st ← chunks.foldlM (receiveChunk bound selected slotBytes byteLength segments)
    ⟨memory, 0, some none⟩
  if st.received ≠ byteLength then
    throw (.layoutError "token restore received an incomplete object")
  else pure st.memory

end

/-! ### Bytes of selected pages -/

/-- A byte of the selected pages: its layer, the number of its page there, and its place in it. -/
abbrev PageCoord := (Nat × String) × (Nat × Nat)

/-- Bytes of a page of a layer, none without the layer. -/
def boundPageBytes (bound : BoundLayers) (key : Nat × String) : Nat :=
  (bound.get? key).elim 0 PageLayer.pageSizeBytes

/-- The bytes of a segment in order. -/
def segmentCoords (bound : BoundLayers) (segment : PageSlice) : List PageCoord :=
  (List.range segment.byteLength).map fun j ↦ (segment.layerKey,
    (segment.pageStart + j / boundPageBytes bound segment.layerKey,
      j % boundPageBytes bound segment.layerKey))

/-- Where a byte lies for a selection of pages. -/
def place (selected : List (List Nat)) (c : PageCoord) : (Nat × String) × (Nat × Nat) :=
  (c.1, (((selected[c.1.1]?).getD []).getD c.2.1 0, c.2.2))

/-- The bytes of some segments in the pages of a selection. -/
def segmentBytes (bound : BoundLayers) (selected : List (List Nat)) (memory : BankMemory)
    (segments : List PageSlice) : Bytes :=
  (segments.flatMap (segmentCoords bound)).map fun c ↦ memory (place selected c)

/-- A segment of a bound layer whose pages were selected and exist. -/
structure Transferable (bound : BoundLayers) (selected : List (List Nat)) (segment : PageSlice) :
    Prop where
  ranged : ∃ layer pages, bound.get? segment.layerKey = some layer ∧
    selected[segment.groupIndex]? = some pages ∧
    segment.pageStart + segment.pageCount ≤ pages.length ∧
    segment.byteLength = segment.pageCount * layer.pageSizeBytes ∧
    ∀ page ∈ pages, page < layer.blocks

section

variable {bound : BoundLayers} {selected : List (List Nat)}

private theorem length_segmentCoords (segment : PageSlice) :
    (segmentCoords bound segment).length = segment.byteLength := by
  rw [segmentCoords, List.length_map, List.length_range]

/-- The segments have as many coordinates as bytes. -/
theorem length_flatMap_segmentCoords (segments : List PageSlice) :
    (segments.flatMap (segmentCoords bound)).length = (segments.map PageSlice.byteLength).sum := by
  rw [List.length_flatMap]
  exact congrArg List.sum (List.map_congr_left fun s _ ↦ length_segmentCoords s)

private theorem length_segmentBytes (memory : BankMemory) (segments : List PageSlice) :
    (segmentBytes bound selected memory segments).length =
      (segments.map PageSlice.byteLength).sum := by
  rw [segmentBytes, List.length_map, length_flatMap_segmentCoords]

private theorem segmentBytes_append (memory : BankMemory) (a b : List PageSlice) :
    segmentBytes bound selected memory (a ++ b) =
      segmentBytes bound selected memory a ++ segmentBytes bound selected memory b := by
  rw [segmentBytes, List.flatMap_append, List.map_append]
  rfl

/-- The window of a segment is copied between its bytes and the host. -/
theorem copy_window {segment : PageSlice} (h : Transferable bound selected segment)
    {offset size : Nat} (hsize : 0 < size) (hle : offset + size ≤ segment.byteLength)
    {indexCache : Option IndexCache} (hcache : CacheOk indexCache) (toDevice : Bool)
    (memory : PageMemory) {host : Bytes} (hhost : host.length = size) :
    ∃ layer pages out loc, segmentPages bound selected segment = .ok (layer, pages) ∧
      copyPageBytes layer pages offset toDevice indexCache memory host = .ok out ∧
      (out.memory, out.host) = copyRange toDevice loc 0 size (memory, host) ∧
      CacheOk out.indexCache ∧ (List.range size).map (fun k ↦ (segment.layerKey, loc k)) =
        (((segmentCoords bound segment).drop offset).take size).map (place selected) := by
  obtain ⟨layer, pages, hlayer, hpages, hrange, hbytes, hblocks⟩ := h.ranged
  have hpos := layer.pageSizeBytes_pos
  have hin : InRange layer ((pages.drop segment.pageStart).take segment.pageCount) offset
      (memory, host).2.length := by
    refine ⟨fun id hid ↦ hblocks id (List.mem_of_mem_drop (List.mem_of_mem_take hid)), ?_, ?_⟩
    · rw [hhost]
      exact hsize
    · rw [List.length_take_of_le (by rw [List.length_drop]; omega), ← hbytes]
      exact hhost ▸ hle
  obtain ⟨out, hout, hcopied, hcache'⟩ := hin.copyPageBytes_ok hcache toDevice
  refine ⟨layer, _, out, _, ?_, hout, hhost ▸ hcopied, hcache', ?_⟩
  · unfold segmentPages
    rw [hlayer]
    dsimp only
    rw [hpages]
  · have hdrop : ((segmentCoords bound segment).drop offset).take size =
        (List.range size).map fun k ↦ (segment.layerKey,
          (segment.pageStart + (offset + k) / layer.pageSizeBytes,
            (offset + k) % layer.pageSizeBytes)) := by
      refine List.ext_getElem? fun k ↦ ?_
      rw [List.getElem?_take]
      by_cases hk : k < size
      · rw [if_pos hk, List.getElem?_drop, segmentCoords, List.getElem?_map, List.getElem?_map,
          List.getElem?_range (by omega), List.getElem?_range hk]
        unfold boundPageBytes
        rw [hlayer]
        rfl
      · rw [if_neg hk, List.getElem?_eq_none (by rw [List.length_map, List.length_range]; omega)]
    rw [hdrop, List.map_map]
    refine List.map_congr_left fun k hk ↦ ?_
    have hk := List.mem_range.mp hk
    have hlt : (offset + k) / layer.pageSizeBytes < segment.pageCount :=
      (Nat.div_lt_iff_lt_mul hpos).mpr (by omega)
    unfold place byteLocation
    dsimp only [Function.comp]
    change _ = (segment.layerKey, (((selected[segment.groupIndex]?).getD []).getD _ 0, _))
    rw [hpages, Option.getD_some, List.getD_eq_getElem?_getD, List.getD_eq_getElem?_getD,
      List.getElem?_take_of_lt hlt, List.getElem?_drop]

end

/-! ### What a capture yields -/

section

variable {bound : BoundLayers} {selected : List (List Nat)}

/-- A window inside a segment that can be transferred. -/
def WindowOk (bound : BoundLayers) (selected : List (List Nat)) (w : PageSlice × Nat × Nat) : Prop :=
  Transferable bound selected w.1 ∧ 0 < w.2.2 ∧ w.2.1 + w.2.2 ≤ w.1.byteLength

/-- The bytes of some windows. -/
def windowCoords (bound : BoundLayers) (windows : List (PageSlice × Nat × Nat)) : List PageCoord :=
  windows.flatMap fun w ↦ ((segmentCoords bound w.1).drop w.2.1).take w.2.2

private theorem length_windowCoords {windows : List (PageSlice × Nat × Nat)}
    (h : ∀ w ∈ windows, WindowOk bound selected w) :
    (windowCoords bound windows).length = (windows.map fun w ↦ w.2.2).sum := by
  rw [windowCoords, List.length_flatMap]
  refine congrArg List.sum (List.map_congr_left fun w hw ↦ ?_)
  have hle := (h w hw).2.2
  rw [List.length_take, List.length_drop, length_segmentCoords]
  omega

private theorem captureWindow_ok (memory : BankMemory) {st : CaptureState}
    (hcache : CacheOk st.indexCache) {w : PageSlice × Nat × Nat} (h : WindowOk bound selected w)
    (hfit : st.cursor + w.2.2 ≤ st.slot.length) :
    ∃ st', captureWindow bound selected memory st w = .ok st' ∧ CacheOk st'.indexCache ∧
      st'.cursor = st.cursor + w.2.2 ∧ st'.slot.length = st.slot.length ∧
      st'.slot.take st'.cursor = st.slot.take st.cursor ++
        (windowCoords bound [w]).map fun c ↦ memory (place selected c) := by
  obtain ⟨segment, offset, size⟩ := w
  obtain ⟨htransfer, hsize, hle⟩ := h
  dsimp only at htransfer hsize hle hfit ⊢
  have hhost : ((st.slot.drop st.cursor).take size).length = size := by
    rw [List.length_take, List.length_drop]
    omega
  obtain ⟨layer, pages, out, loc, hpages, hout, hcopied, hcache', hloc⟩ :=
    copy_window htransfer hsize hle hcache false (layerMemory memory segment.layerKey) hhost
  have hbytes : out.host = ((((segmentCoords bound segment).drop offset).take size).map
      fun c ↦ memory (place selected c)) := by
    have hgather : out.host = gather (layerMemory memory segment.layerKey) loc size := by
      have hout' := congrArg Prod.snd hcopied
      change out.host = ((st.slot.drop st.cursor).take size).take 0 ++ _ ++
        ((st.slot.drop st.cursor).take size).drop (0 + size) at hout'
      rw [hout', List.take_zero, List.nil_append, Nat.zero_add, List.drop_of_length_le hhost.le,
        List.append_nil]
    have hmap : ((List.range size).map fun k ↦ (segment.layerKey, loc k)).map memory =
        ((((segmentCoords bound segment).drop offset).take size).map (place selected)).map memory :=
      congrArg (List.map memory) hloc
    rw [List.map_map, List.map_map] at hmap
    exact hgather.trans hmap
  have hsizeOut : out.host.length = size := by
    rw [hbytes, List.length_map, List.length_take, List.length_drop, length_segmentCoords]
    omega
  have hfront : (st.slot.take st.cursor).length = st.cursor := by
    rw [List.length_take]
    omega
  refine ⟨⟨st.slot.take st.cursor ++ out.host ++ st.slot.drop (st.cursor + size), st.cursor + size,
    out.indexCache⟩, ?_, hcache', rfl, ?_, ?_⟩
  · unfold captureWindow
    dsimp only
    rw [hpages, ok_bind]
    dsimp only
    rw [hout, ok_bind]
    rfl
  · dsimp only
    rw [List.length_append, List.length_append, hfront, hsizeOut, List.length_drop]
    omega
  · dsimp only
    rw [List.take_left' (by rw [List.length_append, hfront, hsizeOut]), hbytes]
    unfold windowCoords
    rw [List.flatMap_singleton]

private theorem captureWindows_ok (memory : BankMemory) {windows : List (PageSlice × Nat × Nat)}
    (h : ∀ w ∈ windows, WindowOk bound selected w) {st : CaptureState}
    (hcache : CacheOk st.indexCache)
    (hfit : st.cursor + (windows.map fun w ↦ w.2.2).sum ≤ st.slot.length) :
    ∃ st', windows.foldlM (captureWindow bound selected memory) st = .ok st' ∧
      st'.slot.take st'.cursor = st.slot.take st.cursor ++
        (windowCoords bound windows).map fun c ↦ memory (place selected c) := by
  induction windows generalizing st with
  | nil => exact ⟨st, rfl, (List.append_nil _).symm⟩
  | cons w windows ih =>
    rw [List.map_cons, List.sum_cons] at hfit
    obtain ⟨st', hst, hcache', hcursor, hlength, htake⟩ :=
      captureWindow_ok memory hcache (h w List.mem_cons_self) (by omega)
    obtain ⟨st'', hfold, htake'⟩ := ih (fun x hx ↦ h x (List.mem_cons_of_mem _ hx)) hcache'
      (by rw [hcursor, hlength]; omega)
    refine ⟨st'', ?_, ?_⟩
    · rw [List.foldlM_cons, hst, ok_bind, hfold]
    · have hcons : windowCoords bound (w :: windows) =
          windowCoords bound [w] ++ windowCoords bound windows := by
        unfold windowCoords
        rw [List.flatMap_cons, List.flatMap_singleton]
      rw [htake', htake, hcons, List.map_append, List.append_assoc]

private theorem cacheOk_fresh : CacheOk (some none) := by
  intro key indexes h
  cases h

/-- The windows of a range of segments are the bytes of the range. -/
theorem windows_ok {segments : List PageSlice} (h : ∀ s ∈ segments, Transferable bound selected s)
    {start length : Nat} (hlength : 0 < length)
    (hle : start + length ≤ (segments.map PageSlice.byteLength).sum) :
    ∃ windows, segmentByteRanges PageSlice.byteLength segments start length = .ok windows ∧
      (∀ w ∈ windows, WindowOk bound selected w) ∧
      windowCoords bound windows =
        ((segments.flatMap (segmentCoords bound)).drop start).take length ∧
      (windows.map fun w ↦ w.2.2).sum = length := by
  have hwindow : ∀ w ∈ segmentWindows PageSlice.byteLength segments start length,
      WindowOk bound selected w := fun w hw ↦
    have hmem := mem_segmentWindows hlength hw
    ⟨h w.1 hmem.1, hmem.2.1, hmem.2.2⟩
  have hcoords : windowCoords bound (segmentWindows PageSlice.byteLength segments start length) =
      ((segments.flatMap (segmentCoords bound)).drop start).take length :=
    flatMap_segmentWindows (fun s ↦ length_segmentCoords s) hle
  refine ⟨_, ?_, hwindow, hcoords, ?_⟩
  · unfold segmentByteRanges
    rw [if_neg (by omega), Int.toNat_natCast, Int.toNat_natCast]
  · rw [← length_windowCoords hwindow, hcoords, List.length_take, List.length_drop,
      length_flatMap_segmentCoords]
    omega

/-- A capture yields the range of the bytes of its segments, whatever was in the slot. -/
theorem capturePacked_ok {slotBytes : Nat} (memory : BankMemory) {slot : Bytes}
    (hslot : slot.length = slotBytes) {segments : List PageSlice}
    (h : ∀ s ∈ segments, Transferable bound selected s) (start : Nat) (byteLength : Option Nat)
    {length : Nat} (hrange : byteLength.elim ((segments.map PageSlice.byteLength).sum - start)
      (fun n ↦ n) = length)
    (hpos : 0 < length) (hcredit : length ≤ slotBytes)
    (hle : start + length ≤ (segments.map PageSlice.byteLength).sum) :
    capturePacked bound selected slotBytes memory slot segments start byteLength =
      .ok (((segmentBytes bound selected memory segments).drop start).take length) := by
  have hint : (byteLength.elim (((segments.map PageSlice.byteLength).sum : Int) - start)
      (fun n : Nat ↦ (n : Int))) = length := by
    cases byteLength with
    | none =>
      dsimp only [Option.elim] at hrange ⊢
      omega
    | some n => exact congrArg Nat.cast hrange
  obtain ⟨windows, hwindows, hok, hcoords, hsum⟩ := windows_ok h hpos hle
  obtain ⟨st, hfold, htake⟩ := @captureWindows_ok bound selected memory windows hok
    ⟨slot, 0, some none⟩ cacheOk_fresh (by dsimp only; omega)
  unfold capturePacked
  dsimp only
  rw [hint, if_neg (not_not.mpr ⟨by omega, by omega⟩), hwindows, ok_bind, hfold, ok_bind, htake,
    hcoords, segmentBytes, List.map_take, List.map_drop]
  rfl

end

section

variable {bound : BoundLayers} {selected : List (List Nat)}

/-- Cutting a view at the lengths of its files. -/
theorem splitBatch_ok (memory : BankMemory) {files : List (List PageSlice)} {front : Bytes} :
    splitBatch (front ++ segmentBytes bound selected memory files.flatten) files front.length =
      .ok (files.map (segmentBytes bound selected memory)) := by
  induction files generalizing front with
  | nil =>
    unfold splitBatch
    rw [List.flatten_nil, if_neg (not_not.mpr ?_)]
    · rfl
    · exact (congrArg List.length (List.append_nil front)).symm
  | cons parts rest ih =>
    have hlength := @length_segmentBytes bound selected memory parts
    unfold splitBatch
    rw [List.flatten_cons, segmentBytes_append, ← List.append_assoc]
    have hrest := @ih (front ++ segmentBytes bound selected memory parts)
    rw [List.length_append, hlength] at hrest
    dsimp only
    rw [hrest, ok_bind, List.append_assoc, List.drop_left, ← hlength, List.take_left]
    rfl

/-- The files of a batch are captured as each of them alone. -/
theorem captureBatch_ok {slotBytes : Nat} (memory : BankMemory) {slot : Bytes}
    (hslot : slot.length = slotBytes) {files : List (List PageSlice)}
    (h : ∀ parts ∈ files, ∀ s ∈ parts, Transferable bound selected s)
    (hpos : 0 < (files.flatten.map PageSlice.byteLength).sum)
    (hcredit : (files.flatten.map PageSlice.byteLength).sum ≤ slotBytes) :
    captureBatch bound selected slotBytes memory slot files =
      .ok (files.map (segmentBytes bound selected memory)) := by
  have hall : ∀ s ∈ files.flatten, Transferable bound selected s := by
    intro s hs
    obtain ⟨parts, hparts, hs⟩ := List.mem_flatten.mp hs
    exact h parts hparts s hs
  have hview := capturePacked_ok memory hslot hall 0 none (Nat.sub_zero _) hpos hcredit (by omega)
  rw [List.drop_zero, List.take_of_length_le (length_segmentBytes memory files.flatten).le] at hview
  unfold captureBatch
  rw [hview, ok_bind]
  exact @splitBatch_ok bound selected memory files []

/-- The pieces of a streamed file are those of its bytes. -/
theorem captureStreamed_ok {slotBytes step : Nat} (memory : BankMemory) {slots : Nat → Bytes}
    (hslots : ∀ i, (slots i).length = slotBytes) (hstep : 0 < step) (hcredit : step ≤ slotBytes)
    {parts : List PageSlice} (h : ∀ s ∈ parts, Transferable bound selected s) :
    captureStreamed bound selected slotBytes step memory slots parts =
      .ok ((List.range (((segmentBytes bound selected memory parts).length + step - 1) / step)).map
        fun i ↦ ((segmentBytes bound selected memory parts).drop (i * step)).take step) := by
  have hlength := @length_segmentBytes bound selected memory parts
  unfold captureStreamed
  rw [if_neg (by omega), hlength]
  refine mapM_eq_ok fun i hi ↦ ?_
  have hi : i < ((parts.map PageSlice.byteLength).sum + step - 1) / step := List.mem_range.mp hi
  have hlt : i * step < (parts.map PageSlice.byteLength).sum := by
    have hle := (Nat.le_div_iff_mul_le hstep).mp hi
    rw [Nat.succ_mul] at hle
    omega
  have hpiece : capturePacked bound selected slotBytes memory (slots i) parts (i * step)
      (some (min step ((parts.map PageSlice.byteLength).sum - i * step))) =
      .ok (((segmentBytes bound selected memory parts).drop (i * step)).take
        (min step ((parts.map PageSlice.byteLength).sum - i * step))) :=
    capturePacked_ok memory (hslots i) h (i * step) _ rfl (by omega) (by omega) (by omega)
  rw [hpiece, ← hlength, ← List.length_drop, ← List.take_eq_take_min]

end

/-! ### What a receiver writes -/

section

variable {bound : BoundLayers} {selected : List (List Nat)}

private theorem receiveWindow_ok {chunk : Bytes} {memory : BankMemory} {cursor : Nat}
    {indexCache : Option IndexCache} (hcache : CacheOk indexCache) {w : PageSlice × Nat × Nat}
    (h : WindowOk bound selected w) (hfit : cursor + w.2.2 ≤ chunk.length) :
    ∃ indexCache', receiveWindow bound selected chunk (memory, cursor, indexCache) w =
        .ok (write memory (((windowCoords bound [w]).map (place selected)).zip
          ((chunk.drop cursor).take w.2.2)), cursor + w.2.2, indexCache') ∧
      CacheOk indexCache' := by
  obtain ⟨segment, offset, size⟩ := w
  obtain ⟨htransfer, hsize, hle⟩ := h
  dsimp only at htransfer hsize hle hfit ⊢
  have hhost : ((chunk.drop cursor).take size).length = size := by
    rw [List.length_take, List.length_drop]
    omega
  obtain ⟨layer, pages, out, loc, hpages, hout, hcopied, hcache', hloc⟩ :=
    copy_window htransfer hsize hle hcache true (layerMemory memory segment.layerKey) hhost
  refine ⟨out.indexCache, ?_, hcache'⟩
  have hmemory : out.memory = scatter (layerMemory memory segment.layerKey) loc
      ((chunk.drop cursor).take size) := by
    have hout' := congrArg Prod.fst hcopied
    change out.memory = scatter _ loc ((((chunk.drop cursor).take size).drop 0).take size) at hout'
    rwa [List.drop_zero, List.take_of_length_le hhost.le] at hout'
  have hset : setLayer memory segment.layerKey out.memory =
      write memory (((windowCoords bound [(segment, offset, size)]).map (place selected)).zip
        ((chunk.drop cursor).take size)) := by
    unfold windowCoords
    rw [List.flatMap_singleton, ← hloc, hmemory, scatter_eq_write, hhost]
    unfold setLayer layerMemory
    rw [write_part, List.zip_map_left, List.zip_map_left, List.map_map]
    rfl
  unfold receiveWindow
  dsimp only
  rw [hpages, ok_bind]
  dsimp only
  rw [hout, ok_bind, hset]
  rfl

private theorem receiveWindows_ok {chunk : Bytes} {windows : List (PageSlice × Nat × Nat)}
    (h : ∀ w ∈ windows, WindowOk bound selected w) {memory : BankMemory} {cursor : Nat}
    {indexCache : Option IndexCache} (hcache : CacheOk indexCache)
    (hfit : cursor + (windows.map fun w ↦ w.2.2).sum ≤ chunk.length) :
    ∃ indexCache', windows.foldlM (receiveWindow bound selected chunk) (memory, cursor, indexCache) =
        .ok (write memory (((windowCoords bound windows).map (place selected)).zip
          ((chunk.drop cursor).take (windows.map fun w ↦ w.2.2).sum)),
          cursor + (windows.map fun w ↦ w.2.2).sum, indexCache') ∧ CacheOk indexCache' := by
  induction windows generalizing memory cursor indexCache with
  | nil => exact ⟨indexCache, rfl, hcache⟩
  | cons w windows ih =>
    rw [List.map_cons, List.sum_cons] at hfit ⊢
    obtain ⟨indexCache', hw, hcache'⟩ := @receiveWindow_ok bound selected chunk memory cursor
      indexCache hcache w (h w List.mem_cons_self) (by omega)
    obtain ⟨indexCache'', hfold, hcache''⟩ := @ih (fun x hx ↦ h x (List.mem_cons_of_mem _ hx))
      (write memory (((windowCoords bound [w]).map (place selected)).zip
        ((chunk.drop cursor).take w.2.2))) (cursor + w.2.2) indexCache' hcache' (by omega)
    refine ⟨indexCache'', ?_, hcache''⟩
    have hcons : windowCoords bound (w :: windows) =
        windowCoords bound [w] ++ windowCoords bound windows := by
      unfold windowCoords
      rw [List.flatMap_cons, List.flatMap_singleton]
    have hone : ((windowCoords bound [w]).map (place selected)).length =
        ((chunk.drop cursor).take w.2.2).length := by
      rw [List.length_map, length_windowCoords fun x hx ↦
        h x (List.mem_cons.mpr (.inl (List.mem_singleton.mp hx))), List.length_take,
        List.length_drop, List.map_singleton, List.sum_singleton]
      omega
    rw [List.foldlM_cons, hw, ok_bind, hfold, hcons, List.map_append, List.take_add,
      List.zip_append hone, write_append, List.drop_drop, Nat.add_assoc]

/-- The first bytes of some segments, from where a receiver stands, have been written. -/
structure Received (bound : BoundLayers) (selected : List (List Nat)) (segments : List PageSlice)
    (data : Bytes) (st st' : ReceiveState) : Prop where
  memory : st'.memory = write st.memory ((((segments.flatMap (segmentCoords bound)).drop
    st.received).take data.length |>.map (place selected)).zip data)
  received : st'.received = st.received + data.length
  cache : CacheOk st'.indexCache

/-- A range is written behind what was received before it. -/
theorem receiveChunk_ok {slotBytes : Nat} {segments : List PageSlice}
    (h : ∀ s ∈ segments, Transferable bound selected s) {st : ReceiveState}
    (hcache : CacheOk st.indexCache) {chunk : Bytes} (hpos : 0 < chunk.length)
    (hslot : chunk.length ≤ slotBytes)
    (hfit : st.received + chunk.length ≤ (segments.map PageSlice.byteLength).sum) :
    ∃ st', receiveChunk bound selected slotBytes (segments.map PageSlice.byteLength).sum
        segments st chunk = .ok st' ∧ Received bound selected segments chunk st st' := by
  obtain ⟨windows, hwindows, hok, hcoords, hsum⟩ := windows_ok h hpos hfit
  obtain ⟨indexCache, hfold, hcache'⟩ := @receiveWindows_ok bound selected chunk windows hok
    st.memory 0 st.indexCache hcache (by omega)
  rw [hcoords, hsum, List.drop_zero, List.take_length] at hfold
  refine ⟨⟨_, st.received + chunk.length, indexCache⟩, ?_, rfl, rfl, hcache'⟩
  unfold receiveChunk
  rw [if_neg (not_not.mpr ⟨hpos, by omega⟩), hwindows, ok_bind, hfold]
  rfl

private theorem receiveChunks_ok {slotBytes : Nat} {segments : List PageSlice}
    (h : ∀ s ∈ segments, Transferable bound selected s) {chunks : List Bytes}
    (hchunks : ∀ c ∈ chunks, 0 < c.length ∧ c.length ≤ slotBytes) {st : ReceiveState}
    (hcache : CacheOk st.indexCache)
    (hfit : st.received + chunks.flatten.length ≤ (segments.map PageSlice.byteLength).sum) :
    ∃ st', chunks.foldlM (receiveChunk bound selected slotBytes
        (segments.map PageSlice.byteLength).sum segments) st = .ok st' ∧
      Received bound selected segments chunks.flatten st st' := by
  induction chunks generalizing st with
  | nil =>
    refine ⟨st, rfl, ?_, rfl, hcache⟩
    rw [List.flatten_nil, List.zip_nil_right, write_nil]
  | cons chunk chunks ih =>
    rw [List.flatten_cons, List.length_append] at hfit
    obtain ⟨hpos, hslot⟩ := hchunks chunk List.mem_cons_self
    obtain ⟨st', hone, hst'⟩ := receiveChunk_ok h hcache hpos hslot (by omega)
    obtain ⟨st'', hrest, hst''⟩ := ih (fun c hc ↦ hchunks c (List.mem_cons_of_mem _ hc)) hst'.cache
      (by rw [hst'.received]; omega)
    refine ⟨st'', ?_, ?_, ?_, hst''.cache⟩
    · rw [List.foldlM_cons, hone, ok_bind, hrest]
    · have hlength : ((((segments.flatMap (segmentCoords bound)).drop st.received).take
          chunk.length).map (place selected)).length = chunk.length := by
        rw [List.length_map, List.length_take, List.length_drop, length_flatMap_segmentCoords]
        omega
      rw [hst''.memory, hst'.memory, hst'.received, List.flatten_cons, List.length_append,
        List.take_add, List.map_append, List.zip_append hlength, write_append, List.drop_drop]
    · rw [hst''.received, hst'.received, List.flatten_cons, List.length_append, Nat.add_assoc]

/-- A receiver that is passed a whole file in ranges writes every byte of its segments to its
page. -/
theorem receiveObject_ok {slotBytes : Nat} {segments : List PageSlice}
    (h : ∀ s ∈ segments, Transferable bound selected s) {chunks : List Bytes}
    (hchunks : ∀ c ∈ chunks, 0 < c.length ∧ c.length ≤ slotBytes)
    (hwhole : chunks.flatten.length = (segments.map PageSlice.byteLength).sum)
    (memory : BankMemory) :
    receiveObject bound selected slotBytes (segments.map PageSlice.byteLength).sum segments memory
        chunks = .ok (write memory (((segments.flatMap (segmentCoords bound)).map
          (place selected)).zip chunks.flatten)) := by
  obtain ⟨st, hfold, hst⟩ := @receiveChunks_ok bound selected slotBytes segments h chunks
    hchunks ⟨memory, 0, some none⟩ cacheOk_fresh (by dsimp only; omega)
  have hreceived : st.received = (segments.map PageSlice.byteLength).sum := by
    rw [hst.received, ← hwhole]
    exact Nat.zero_add _
  have hmemory := hst.memory
  rw [List.drop_zero, hwhole, ← @length_flatMap_segmentCoords bound, List.take_length] at hmemory
  unfold receiveObject
  rw [hfold, ok_bind, if_neg (not_not.mpr hreceived), hmemory]
  rfl

end

end SpoolCache.Mover

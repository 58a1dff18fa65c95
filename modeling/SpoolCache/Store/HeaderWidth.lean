import SpoolCache.Base.JsonWidth
import SpoolCache.Store.FileFormat

/-!
# Widths of headers

`token_files.py:207–226`. The encoded length of a header depends on its geometry and its parent,
and not on its key and checksums. It grows with the numbers in the header.
-/

namespace SpoolCache.Store

open SpoolCache.Base SpoolCache.Base.Json SpoolCache.Layout

/-! ### Digests -/

private theorem width_hexChar {c : Char} (h : c ∈ "0123456789abcdef".toList) :
    escape c = [c] ∧ c.toNat < 128 := by
  have hlist : "0123456789abcdef".toList =
      ['0', '1', '2', '3', '4', '5', '6', '7', '8', '9', 'a', 'b', 'c', 'd', 'e', 'f'] := rfl
  rw [hlist] at h
  simp only [List.mem_cons, List.not_mem_nil, or_false] at h
  rcases h with rfl | rfl | rfl | rfl | rfl | rfl | rfl | rfl | rfl | rfl | rfl | rfl | rfl | rfl |
    rfl | rfl <;> exact ⟨rfl, by decide⟩

private theorem flatMap_escape_hex {t : List Char} (h : ∀ c ∈ t, c ∈ "0123456789abcdef".toList) :
    t.flatMap escape = t := by
  induction t with
  | nil => rfl
  | cons c t ih =>
    rw [List.flatMap_cons, (width_hexChar (h c List.mem_cons_self)).1,
      ih fun d hd ↦ h d (List.mem_cons_of_mem c hd)]
    rfl

/-- Every digest has a text of the same length. -/
theorem width_digestJson (d : Digest) : width (digestJson d).dumps = 66 := by
  have hlist : d.hex.toList = Digest.hexChars 64 d.toNat := String.toList_ofList
  have hhex : ∀ c ∈ Digest.hexChars 64 d.toNat, c ∈ "0123456789abcdef".toList :=
    fun c hc ↦ Digest.mem_hexChars hc
  have hdigits : width (Digest.hexChars 64 d.toNat) = 64 := by
    rw [width_ascii fun c hc ↦ (width_hexChar (hhex c hc)).2, Digest.length_hexChars]
  have hquote : width ['"'] = 1 := by decide
  rw [digestJson, dumps, quote, width_cons, quoteTail, hlist, flatMap_escape_hex hhex,
    width_append, hdigits, hquote]

private theorem fits_digestJson (d e : Digest) : Fits (digestJson d) (digestJson e) := by
  unfold Fits
  rw [width_digestJson, width_digestJson]

private theorem fits_digests {a b : List Digest} (h : a.length = b.length) :
    Fits (.arr (a.map digestJson)) (.arr (b.map digestJson)) := by
  apply fits_arr
  rw [List.forall₂_map_left_iff, List.forall₂_map_right_iff, List.forall₂_iff_zip]
  exact ⟨h, fun {x y} _ ↦ fits_digestJson x y⟩

private theorem fits_parentJson {p q : Option Digest} (h : q = none → p = none) :
    Fits (parentJson p) (parentJson q) := by
  cases q with
  | none =>
    rw [h rfl]
    exact Fits.refl _
  | some d =>
    cases p with
    | none =>
      have hnull : width (dumps .null) = 4 := by decide
      unfold Fits parentJson
      rw [hnull, width_digestJson]
      omega
    | some e => exact fits_digestJson e d

/-! ### Headers of one kind -/

/-- A slice of the same layer with no larger numbers. -/
structure SliceFits (a b : PageSlice) : Prop where
  layerKey : a.layerKey = b.layerKey
  pageStart : a.pageStart ≤ b.pageStart
  pageCount : a.pageCount ≤ b.pageCount
  byteLength : a.byteLength ≤ b.byteLength

/-- A slice is no longer than itself. -/
theorem SliceFits.refl (a : PageSlice) : SliceFits a a :=
  ⟨rfl, Nat.le_refl _, Nat.le_refl _, Nat.le_refl _⟩

private theorem fits_sliceJson {a b : PageSlice} (h : SliceFits a b) : Fits (sliceJson a)
    (sliceJson b) := by
  obtain ⟨hgroup, hname⟩ := Prod.ext_iff.mp h.layerKey
  have hgroup : a.groupIndex = b.groupIndex := hgroup
  have hname : a.layerName = b.layerName := hname
  refine fits_obj ((TokenFileStore.canonical_sliceJson a).1) ?_
  refine .cons ⟨rfl, fits_int h.byteLength⟩ (.cons ⟨rfl, ?_⟩ (.cons ⟨rfl, ?_⟩
    (.cons ⟨rfl, fits_int h.pageCount⟩ (.cons ⟨rfl, fits_int h.pageStart⟩ .nil))))
  · rw [hgroup]
    exact Fits.refl _
  · rw [hname]
    exact Fits.refl _

/-- A header of the same kind with no larger numbers and as many block checksums. -/
structure HeaderFits (p q : HeaderPayload) : Prop where
  kind : p.header.kind = q.header.kind
  parent : q.header.parent = none → p.header.parent = none
  span : p.header.spanTokens ≤ q.header.spanTokens
  segments : List.Forall₂ SliceFits p.segments q.segments
  byteLength : p.byteLength ≤ q.byteLength
  blocks : p.blockSha256.length = q.blockSha256.length

namespace TokenFileStore

/-- Such a header is no longer. -/
theorem fits_headerJson (store : TokenFileStore) {p q : HeaderPayload} (h : HeaderFits p q) :
    Fits (store.headerJson p) (store.headerJson q) := by
  have hsegments : Fits (.arr (p.segments.map sliceJson)) (.arr (q.segments.map sliceJson)) := by
    apply fits_arr
    rw [List.forall₂_map_left_iff, List.forall₂_map_right_iff]
    exact h.segments.imp fun _ _ hab ↦ fits_sliceJson hab
  have hkind : Fits (.str (kindText p.header.kind)) (.str (kindText q.header.kind)) := by
    rw [h.kind]
    exact Fits.refl _
  refine fits_obj (store.canonical_headerJson p).1 ?_
  exact .cons ⟨rfl, Fits.refl _⟩ (.cons ⟨rfl, fits_digests h.blocks⟩
    (.cons ⟨rfl, fits_int h.byteLength⟩ (.cons ⟨rfl, fits_digestJson _ _⟩ (.cons ⟨rfl, hkind⟩
    (.cons ⟨rfl, fits_parentJson h.parent⟩ (.cons ⟨rfl, Fits.refl _⟩ (.cons ⟨rfl, hsegments⟩
    (.cons ⟨rfl, fits_digestJson _ _⟩ (.cons ⟨rfl, fits_int h.span⟩ .nil)))))))))

/-- The encoded length of a header does not depend on its key and its checksums. -/
theorem length_canonicalJson_headerJson (store : TokenFileStore) {p q : HeaderPayload}
    (hheader : p.header = q.header) (hsegments : p.segments = q.segments)
    (hbytes : p.byteLength = q.byteLength)
    (hblocks : p.blockSha256.length = q.blockSha256.length) :
    (Json.canonicalJson (store.headerJson p)).length =
      (Json.canonicalJson (store.headerJson q)).length := by
  have hslices : ∀ l : List PageSlice, List.Forall₂ SliceFits l l := fun l ↦
    List.forall₂_same.mpr fun a _ ↦ SliceFits.refl a
  apply Nat.le_antisymm
  · apply store.fits_headerJson
    exact ⟨by rw [hheader], fun h ↦ (by rw [hheader, h]), by rw [hheader],
      hsegments ▸ hslices _, hbytes.le, hblocks⟩
  · apply store.fits_headerJson
    exact ⟨by rw [hheader], fun h ↦ (by rw [← hheader, h]), by rw [hheader],
      hsegments ▸ hslices _, hbytes.ge, hblocks.symm⟩

private theorem width_tokenFileSchema :
    width (Json.str tokenFileSchema).dumps = 30 := by decide +kernel

/-- The width of the binding, apart from its texts and numbers, is at most 439. -/
theorem width_bindingJson_le (store : TokenFileStore) :
    width store.bindingJson.dumps ≤ 439 + width (Json.int store.layout.chunkTokens).dumps +
      width (Json.str store.identity.profile).dumps + width (Json.int store.identity.rank).dumps +
      width (Json.int store.slotBytes).dumps := by
  have hnames : (["chunk_tokens", "deployment_digest", "layout_digest", "profile", "rank",
      "rank_digest", "storage_schema", "topology_digest", "transfer_bytes"].map
        fun name ↦ width (quote name) + 2).sum = 143 := by
    decide +kernel
  have hwidth := width_obj_le store.canonical_bindingJson.1
  simp only [List.map_cons, List.map_nil] at hwidth hnames
  rw [hnames] at hwidth
  refine hwidth.trans ?_
  simp only [List.sum_cons, List.sum_nil, width_digestJson, width_tokenFileSchema]
  generalize width (Json.int store.layout.chunkTokens).dumps = chunk
  generalize width (Json.int store.identity.rank).dumps = rank
  generalize width (Json.int store.slotBytes).dumps = slot
  omega

/-- How long a header can be: its names and fixed texts, its binding, a checksum for each transfer
block, its slices and its numbers. -/
theorem width_headerJson_le (store : TokenFileStore) (p : HeaderPayload) :
    width (store.headerJson p).dumps ≤ 355 + width store.bindingJson.dumps +
      67 * p.blockSha256.length + (p.segments.map fun s ↦ width (sliceJson s).dumps + 1).sum +
      width (Json.int p.byteLength).dumps + width (Json.int p.header.spanTokens).dumps := by
  have hnames : (["binding", "block_sha256", "byte_length", "key", "kind", "parent", "schema",
      "segments", "sha256", "span_tokens"].map fun name ↦ width (quote name) + 2).sum = 114 := by
    decide +kernel
  have hkind : width (Json.str (kindText p.header.kind)).dumps ≤ 7 := by
    cases p.header.kind <;> decide +kernel
  have hparent : width (parentJson p.header.parent).dumps ≤ 66 := by
    have hfits : Fits (parentJson p.header.parent) (digestJson (.ofNat 0)) :=
      @fits_parentJson p.header.parent (some (.ofNat 0)) fun h ↦ (by cases h)
    exact Nat.le_trans hfits (width_digestJson _).le
  have hblocks := width_arr_le (p.blockSha256.map digestJson)
  have hsegments := width_arr_le (p.segments.map sliceJson)
  have hdigests : ((p.blockSha256.map digestJson).map fun v ↦ width v.dumps + 1).sum =
      67 * p.blockSha256.length := by
    have hconst : p.blockSha256.map ((fun v ↦ width v.dumps + 1) ∘ digestJson) =
        p.blockSha256.map fun _ ↦ 67 :=
      List.map_congr_left fun d _ ↦ congrArg (· + 1) (width_digestJson d)
    rw [List.map_map, hconst, List.map_const', List.sum_replicate_nat, Nat.mul_comm]
  rw [hdigests] at hblocks
  rw [List.map_map] at hsegments
  have hwidth := width_obj_le (store.canonical_headerJson p).1
  simp only [List.map_cons, List.map_nil] at hwidth hnames
  rw [hnames] at hwidth
  refine hwidth.trans ?_
  simp only [Function.comp_def] at hsegments
  simp only [List.sum_cons, List.sum_nil, width_digestJson, width_tokenFileSchema]
  generalize width (Json.int p.byteLength).dumps = bytes
  generalize width (Json.int p.header.spanTokens).dumps = span
  generalize width (Json.arr (p.blockSha256.map digestJson)).dumps = blocks at hblocks ⊢
  generalize width (Json.arr (p.segments.map sliceJson)).dumps = slices at hsegments ⊢
  generalize width store.bindingJson.dumps = binding
  omega

end TokenFileStore

end SpoolCache.Store

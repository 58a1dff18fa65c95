import SpoolCache.Base.JsonReading
import SpoolCache.Store.Publication

/-!
# The file reader accepts exactly the format

`_open_chunk` and `_authenticate`, `token_files.py:239–321`, on arbitrary bytes. A header is decoded
without any assumption on its values: each check of `_header_payload` is made on what `json.loads`
returned, and what it raises is caught by class. Reads outside of the `try` block rest on the
comparison of canonical texts.
-/

namespace SpoolCache

/-! ### Exception classes -/

/-- `issubclass(type(e), ValueError)`, `errors.py:4–36`. -/
def PyError.isValueError : PyError → Bool
  | .valueError _ => true
  | .configurationError _ => true
  | .identityError _ => true
  | .manifestError _ => true
  | .layoutError _ => true
  | _ => false

/-- `except (ValueError, KeyError, TypeError, RecursionError, OverflowError)`,
`token_files.py:273–279`. Nothing here raises a `RecursionError`: `Json.loads` reads texts of any
depth, integers of any length and no lone surrogates, where the interpreter has limits and refuses
a header beyond them inside the same `try` block. -/
def PyError.isMetadataError : PyError → Bool
  | .keyError _ => true
  | .typeError _ => true
  | .overflowError _ => true
  | e => e.isValueError

namespace Store

open SpoolCache.Base SpoolCache.Layout SpoolCache.Prefix

namespace TokenFileStore

/-! ### Decoding without assumptions -/

/-- `payload[name]`. -/
def item (payload : Json) (name : String) : Except PyError Json :=
  match payload.field? name with
  | some v => .ok v
  | none => .error (.keyError name)

/-- `_positive`, `token_files.py:65–68`. -/
def positive (value : Json) (maximum : Nat) (label : String) : Except PyError Nat :=
  match value with
  | .int n =>
    if 0 < n ∧ n ≤ maximum then .ok n.toNat
    else .error (.manifestError ("invalid token file " ++ label))
  | _ => .error (.manifestError ("invalid token file " ++ label))

/-- `value is None`. -/
def isNull : Json → Bool
  | .null => true
  | _ => false

/-- The checks of kind and parent, `token_files.py:179–193`. -/
def kindAndParent (store : TokenFileStore) (key : Digest) (parent kind : Json) (span : Nat) :
    Except PyError (FileKind × Option Digest) :=
  match kind? kind with
  | some .state =>
    if store.layout.hasBoundaryState = true ∧ (digest? parent).map boundaryStateKey = some key ∧
        span % store.layout.alignmentTokens = 0 then .ok (.state, digest? parent)
    else .error (.manifestError "boundary state identity/alignment differs")
  | some .data =>
    if span = store.layout.chunkTokens ∧ isNull parent = false ∨
        store.layout.chunkTokens < span ∧ digest? parent = none then
      .error (.manifestError "token parent is invalid")
    else .ok (.data, digest? parent)
  | none => .error (.manifestError "unknown token file kind")

/-- The table of block checksums, `token_files.py:198–206`. -/
def blockTable (blocks : Nat) (digest : Digest) (value : Json) : Except PyError (List Digest) :=
  let table : Option (List Digest) :=
    match value with
    | .null => some (List.replicate blocks (.ofNat 0))
    | .arr items => items.mapM digest?
    | _ => none
  match table with
  | none => .error (.manifestError "token transfer checksums differ from geometry")
  | some table =>
    if table.length ≠ blocks ∨ blocks = 1 ∧ table.head? ≠ some digest then
      .error (.manifestError "token transfer checksums differ from geometry")
    else .ok table

/-- `_header_payload`, `token_files.py:175–218`, on the values found in a header. -/
def headerPayloadOf (store : TokenFileStore) (key : Digest)
    (parent span digest kind blockSha256 : Json) : Except PyError HeaderPayload := do
  let span ← positive span maxCounter "span"
  match if span % store.layout.chunkTokens = 0 then digest? digest else none with
  | none => throw (.manifestError "token key/interval/hash is invalid")
  | some digest =>
    let (kind, parent) ← store.kindAndParent key parent kind span
    let segments ← store.layout.segments span kind
    let length := (segments.map PageSlice.byteLength).sum
    let blocks := store.transferBlocks length
    if blocks = 0 ∨ maxTransferBlocks < blocks then
      throw (.manifestError "invalid token file transfer block count")
    else
      let table ← blockTable blocks digest blockSha256
      pure ⟨key, ⟨kind, parent, span⟩, segments, length, digest, table⟩

/-- `_header_payload` of the fields found in a header, `token_files.py:261–268`. -/
def foundPayload (store : TokenFileStore) (key : Digest) (payload : Json) :
    Except PyError HeaderPayload := do
  let parent ← item payload "parent"
  let span ← item payload "span_tokens"
  let digest ← item payload "sha256"
  let kind ← item payload "kind"
  let blockSha256 ← item payload "block_sha256"
  store.headerPayloadOf key parent span digest kind blockSha256

/-- `json.loads`, and the test that it returned a dictionary, `token_files.py:258–260`. -/
def loadObject (encoded : Bytes) : Except PyError Json :=
  match Json.loads encoded with
  | none => .error (.valueError "invalid JSON")
  | some (.obj fields) => .ok (.obj fields)
  | some _ => .error (.typeError "token header is not an object")

/-- The `try` block of `_open_chunk`, `token_files.py:257–272`. -/
def tryHeader (store : TokenFileStore) (key : Digest) (encoded : Bytes) :
    Except PyError (Json × HeaderPayload) := do
  let payload ← loadObject encoded
  let expected ← store.foundPayload key payload
  if Json.canonicalJson payload ≠ Json.canonicalJson (store.headerJson expected) then
    throw (.valueError "token metadata/identity/geometry differs")
  else pure (payload, expected)

/-- The `try` block with its handler, `token_files.py:257–281`. -/
def readMetadata (store : TokenFileStore) (key : Digest) (encoded : Bytes) :
    Except PyError (Json × HeaderPayload) :=
  match store.tryHeader key encoded with
  | .ok r => .ok r
  | .error e =>
    if e.isMetadataError then .error (.manifestError "invalid token metadata") else .error e

/-- `_open_chunk` on the bytes of a regular file, `token_files.py:246–302`. -/
def openBytes (store : TokenFileStore) (key : Digest) (data : Bytes) :
    Except PyError FileDescriptor := do
  let (encoded, checksum) ← readHeader data
  let (payload, expected) ← store.readMetadata key encoded
  let value ← item payload "byte_length"
  let length ← positive value (store.slotBytes * maxTransferBlocks) "payload length"
  let offset := frameSize + encoded.length
  if data.length ≠ offset + length then throw (.manifestError "token stored length differs")
  else
    pure ⟨⟨key, expected.header.parent, expected.header.spanTokens, expected.segments,
      expected.header.kind⟩, length, expected.digest, offset, checksum, expected.blockSha256⟩

/-! ### What is raised in the block is caught -/

/-- Only errors that the block catches. -/
abbrev Caught {α : Type} (x : Except PyError α) : Prop :=
  OnlyRaises (fun e ↦ e.isMetadataError = true) x

private theorem caught_item (payload : Json) (name : String) : Caught (item payload name) := by
  unfold item
  split
  · exact onlyRaises_ok _
  · exact onlyRaises_error rfl

private theorem caught_positive (value : Json) (maximum : Nat) (label : String) :
    Caught (positive value maximum label) := by
  unfold positive
  split
  · split
    · exact onlyRaises_ok _
    · exact onlyRaises_error rfl
  · exact onlyRaises_error rfl

private theorem caught_segments (l : HMALayout) (span : Nat) (kind : FileKind) :
    Caught (l.segments span kind) :=
  (segments_raises l span kind).mono fun e he ↦ (by cases he <;> rfl)

private theorem caught_kindAndParent (store : TokenFileStore) (key : Digest) (parent kind : Json)
    (span : Nat) : Caught (store.kindAndParent key parent kind span) := by
  unfold kindAndParent
  split
  · split
    · exact onlyRaises_ok _
    · exact onlyRaises_error rfl
  · split
    · exact onlyRaises_error rfl
    · exact onlyRaises_ok _
  · exact onlyRaises_error rfl

private theorem caught_blockTable (blocks : Nat) (digest : Digest) (value : Json) :
    Caught (blockTable blocks digest value) := by
  unfold blockTable
  dsimp only
  split
  · exact onlyRaises_error rfl
  · split
    · exact onlyRaises_error rfl
    · exact onlyRaises_ok _

private theorem caught_headerPayloadOf (store : TokenFileStore) (key : Digest)
    (parent span digest kind blockSha256 : Json) :
    Caught (store.headerPayloadOf key parent span digest kind blockSha256) := by
  unfold headerPayloadOf
  refine (caught_positive _ _ _).bind fun span _ ↦ ?_
  split
  · exact onlyRaises_error rfl
  · refine (caught_kindAndParent _ _ _ _ _).bind fun r _ ↦ ?_
    refine (caught_segments _ _ _).bind fun segments _ ↦ ?_
    dsimp only
    split
    · exact onlyRaises_error rfl
    · exact (caught_blockTable _ _ _).bind fun _ _ ↦ onlyRaises_ok _

private theorem caught_tryHeader (store : TokenFileStore) (key : Digest) (encoded : Bytes) :
    Caught (store.tryHeader key encoded) := by
  unfold tryHeader
  refine OnlyRaises.bind ?_ fun payload _ ↦ OnlyRaises.bind ?_ fun expected _ ↦ ?_
  · unfold loadObject
    split
    · exact onlyRaises_error rfl
    · exact onlyRaises_ok _
    · exact onlyRaises_error rfl
  · unfold foundPayload
    exact (caught_item _ _).bind fun _ _ ↦ (caught_item _ _).bind fun _ _ ↦
      (caught_item _ _).bind fun _ _ ↦ (caught_item _ _).bind fun _ _ ↦
      (caught_item _ _).bind fun _ _ ↦ caught_headerPayloadOf _ _ _ _ _ _ _
  · split
    · exact onlyRaises_error rfl
    · exact onlyRaises_ok _

/-- The handler leaves no other error than its own. -/
theorem readMetadata_error {store : TokenFileStore} {key : Digest} {encoded : Bytes} {e : PyError}
    (h : store.readMetadata key encoded = .error e) :
    e = .manifestError "invalid token metadata" := by
  unfold readMetadata at h
  split at h
  · cases h
  · next e' he =>
    rw [if_pos (store.caught_tryHeader key encoded e' he)] at h
    cases h
    rfl

private theorem readMetadata_ok {store : TokenFileStore} {key : Digest} {encoded : Bytes}
    {r : Json × HeaderPayload} :
    store.readMetadata key encoded = .ok r ↔ store.tryHeader key encoded = .ok r := by
  unfold readMetadata
  cases store.tryHeader key encoded with
  | ok r' => exact Iff.rfl
  | error e =>
    constructor
    · intro h
      dsimp only at h
      split at h <;> cases h
    · intro h
      cases h

/-! ### What the block accepts -/

/-- The header is an object whose canonical text is that of `_header_payload` for the fields found
in it. -/
structure ReadsAs (store : TokenFileStore) (key : Digest) (encoded : Bytes) (payload : Json)
    (expected : HeaderPayload) : Prop where
  loads : Json.loads encoded = some payload
  object : ∃ fields, payload = .obj fields
  found : store.foundPayload key payload = .ok expected
  canonical : Json.canonicalJson payload = Json.canonicalJson (store.headerJson expected)

private theorem tryHeader_iff {store : TokenFileStore} {key : Digest} {encoded : Bytes}
    {payload : Json} {expected : HeaderPayload} :
    store.tryHeader key encoded = .ok (payload, expected) ↔
      ReadsAs store key encoded payload expected := by
  unfold tryHeader
  constructor
  · intro h
    obtain ⟨payload', hload, h⟩ := bind_ok h
    obtain ⟨expected', hfound, h⟩ := bind_ok h
    split at h
    · cases h
    · next hcanonical =>
      cases h
      unfold loadObject at hload
      split at hload
      · cases hload
      · next fields hjson =>
        cases hload
        exact ⟨hjson, ⟨fields, rfl⟩, hfound, not_not.mp hcanonical⟩
      · cases hload
  · rintro ⟨hjson, ⟨fields, rfl⟩, hfound, hcanonical⟩
    have hload : loadObject encoded = .ok (.obj fields) := by
      unfold loadObject
      rw [hjson]
    rw [hload, ok_bind, hfound, ok_bind, if_neg (not_not.mpr hcanonical)]
    rfl

/-- A field of the expected header is in what was read. -/
theorem ReadsAs.field {store : TokenFileStore} {key : Digest} {encoded : Bytes} {payload : Json}
    {expected : HeaderPayload} (h : ReadsAs store key encoded payload expected) {name : String}
    {x : Json} (hx : (store.headerJson expected).field? name = some x) :
    ∃ y, payload.field? name = some y ∧ y.sorted = x := by
  have hread := Json.readable_loads h.loads
  have hsorted := Json.sorted_eq_of_canonicalJson hread (store.canonical_headerJson expected)
    h.canonical
  apply Json.field?_of_sorted hread
  rw [hsorted]
  exact hx

private theorem ReadsAs.byteLength {store : TokenFileStore} {key : Digest} {encoded : Bytes}
    {payload : Json} {expected : HeaderPayload} (h : ReadsAs store key encoded payload expected) :
    payload.field? "byte_length" = some (.int expected.byteLength) := by
  have hfield : (store.headerJson expected).field? "byte_length" =
      some (.int expected.byteLength) := rfl
  obtain ⟨y, hy, hsorted⟩ := h.field hfield
  rw [hy]
  cases y with
  | int n =>
    cases hsorted
    rfl
  | null => cases hsorted
  | bool b => cases hsorted
  | float t => cases hsorted
  | str t => cases hsorted
  | arr l => cases hsorted
  | obj l => cases hsorted

/-! ### Typed headers -/

private theorem positive_ok {value : Json} {maximum n : Nat} {label : String}
    (h : positive value maximum label = .ok n) :
    value = .int n ∧ 0 < n ∧ n ≤ maximum := by
  unfold positive at h
  split at h
  · split at h
    · next i hi =>
      cases h
      exact ⟨congrArg Json.int (by omega), by omega, by omega⟩
    · cases h
  · cases h

private theorem positive_int {n maximum : Nat} (label : String) (hpos : 0 < n) (hle : n ≤ maximum) :
    positive (.int n) maximum label = .ok n := by
  unfold positive
  dsimp only
  rw [if_pos ⟨by omega, by omega⟩, Int.toNat_natCast]

private theorem isNull_iff {v : Json} : isNull v = true ↔ v = .null := by
  cases v with
  | null => exact ⟨fun _ ↦ rfl, fun _ ↦ rfl⟩
  | bool b => exact ⟨fun h ↦ (by cases h), fun h ↦ (by cases h)⟩
  | int n => exact ⟨fun h ↦ (by cases h), fun h ↦ (by cases h)⟩
  | float t => exact ⟨fun h ↦ (by cases h), fun h ↦ (by cases h)⟩
  | str t => exact ⟨fun h ↦ (by cases h), fun h ↦ (by cases h)⟩
  | arr l => exact ⟨fun h ↦ (by cases h), fun h ↦ (by cases h)⟩
  | obj l => exact ⟨fun h ↦ (by cases h), fun h ↦ (by cases h)⟩

private theorem parent?_of_digest {v : Json} {d : Digest} (h : digest? v = some d) :
    parent? v = some (some d) := by
  cases v with
  | str t =>
    change (digest? (.str t)).map some = _
    rw [h]
    rfl
  | null => cases h
  | bool b => cases h
  | int n => cases h
  | float t => cases h
  | arr l => cases h
  | obj l => cases h

private theorem parent?_ok {v : Json} {par : Option Digest} (h : parent? v = some par) :
    digest? v = par ∧ (isNull v = true ↔ par = none) := by
  unfold parent? at h
  split at h
  · cases h
    exact ⟨rfl, fun _ ↦ rfl, fun _ ↦ rfl⟩
  · next hnull =>
    obtain ⟨d, hd, heq⟩ := Option.map_eq_some_iff.mp h
    cases heq
    exact ⟨hd, fun hn ↦ absurd (isNull_iff.mp hn) hnull, fun hn ↦ (by cases hn)⟩

/-- The checks of kind and parent are those of a typed header. -/
theorem kindAndParent_ok {store : TokenFileStore} {key : Digest} {parent kind : Json} {span : Nat}
    {k : FileKind} {par : Option Digest} (hspan : 0 < span)
    (hchunk : span % store.layout.chunkTokens = 0) :
    store.kindAndParent key parent kind span = .ok (k, par) ↔
      kind? kind = some k ∧ parent? parent = some par ∧
      ¬ (k = .state ∧ ¬ (store.layout.hasBoundaryState = true ∧
        par.map boundaryStateKey = some key ∧ span % store.layout.alignmentTokens = 0)) ∧
      ¬ (k = .data ∧ (span = store.layout.chunkTokens ∧ par ≠ none ∨
        store.layout.chunkTokens < span ∧ par = none)) := by
  have hge : store.layout.chunkTokens ≤ span := Nat.le_of_dvd hspan (Nat.dvd_of_mod_eq_zero hchunk)
  constructor
  · intro h
    unfold kindAndParent at h
    split at h
    · next hk =>
      split at h
      · next hstate =>
        cases h
        obtain ⟨d, hd, -⟩ := Option.map_eq_some_iff.mp hstate.2.1
        refine ⟨hk, ?_, fun hno ↦ hno.2 hstate, fun hno ↦ (by cases hno.1)⟩
        rw [hd]
        exact parent?_of_digest hd
      · cases h
    · next hk =>
      split at h
      · cases h
      · next hdata =>
        cases h
        rw [not_or, not_and, not_and, Bool.not_eq_false] at hdata
        refine ⟨hk, ?_, fun hno ↦ (by cases hno.1), ?_⟩
        · rcases hge.eq_or_lt with heq | hlt
          · rw [isNull_iff.mp (hdata.1 heq.symm)]
            rfl
          · obtain ⟨d, hd⟩ := Option.ne_none_iff_exists'.mp (hdata.2 hlt)
            rw [hd]
            exact parent?_of_digest hd
        · rintro ⟨-, ⟨heq, hne⟩ | ⟨hlt, hnone⟩⟩
          · rw [isNull_iff.mp (hdata.1 heq)] at hne
            exact hne rfl
          · exact hdata.2 hlt hnone
    · cases h
  · rintro ⟨hk, hpar, hstate, hdata⟩
    obtain ⟨hdigest, hnull⟩ := parent?_ok hpar
    unfold kindAndParent
    rw [hk]
    cases k with
    | state =>
      dsimp only
      rw [hdigest, if_pos (not_not.mp fun hno ↦ hstate ⟨rfl, hno⟩)]
    | data =>
      dsimp only
      rw [hdigest, if_neg]
      rintro (⟨heq, hn⟩ | ⟨hlt, hnone⟩)
      · refine hdata ⟨rfl, .inl ⟨heq, fun hnone ↦ ?_⟩⟩
        rw [hnull.mpr hnone] at hn
        cases hn
      · exact hdata ⟨rfl, .inr ⟨hlt, hnone⟩⟩

private theorem blockTable_ok {blocks : Nat} {digest : Digest} {value : Json} {table : List Digest}
    (hnull : isNull value = false) :
    blockTable blocks digest value = .ok table ↔
      blocks? value = some table ∧
        ¬ (table.length ≠ blocks ∨ blocks = 1 ∧ table.head? ≠ some digest) := by
  have htable : blockTable blocks digest value =
      match blocks? value with
      | none => .error (.manifestError "token transfer checksums differ from geometry")
      | some table =>
        if table.length ≠ blocks ∨ blocks = 1 ∧ table.head? ≠ some digest then
          .error (.manifestError "token transfer checksums differ from geometry")
        else .ok table := by
    cases value with
    | null => cases hnull
    | _ => rfl
  rw [htable]
  cases blocks? value with
  | none => exact ⟨fun h ↦ (by cases h), fun h ↦ (by cases h.1)⟩
  | some l =>
    dsimp only
    split
    · next hbad =>
      refine ⟨fun h ↦ (by cases h), fun h ↦ ?_⟩
      cases h.1
      exact absurd hbad h.2
    · next hgood =>
      constructor
      · intro h
        cases h
        exact ⟨rfl, hgood⟩
      · rintro ⟨h, -⟩
        cases h
        rfl

/-- The checks of a typed header, one by one. -/
theorem storeHeaderPayload_ok {store : TokenFileStore} {key : Digest} {header : TokenHeader}
    {segments : List PageSlice} :
    Store.headerPayload store.config key header = .ok segments ↔
      (0 < header.spanTokens ∧ header.spanTokens ≤ maxCounter ∧
        header.spanTokens % store.layout.chunkTokens = 0) ∧
      ¬ (header.kind = .state ∧ ¬ (store.layout.hasBoundaryState = true ∧
        header.parent.map boundaryStateKey = some key ∧
        header.spanTokens % store.layout.alignmentTokens = 0)) ∧
      ¬ (header.kind = .data ∧ (header.spanTokens = store.layout.chunkTokens ∧ header.parent ≠ none ∨
        store.layout.chunkTokens < header.spanTokens ∧ header.parent = none)) ∧
      store.layout.segments header.spanTokens header.kind = .ok segments ∧
      ¬ (store.transferBlocks (segments.map PageSlice.byteLength).sum = 0 ∨
        maxTransferBlocks < store.transferBlocks (segments.map PageSlice.byteLength).sum) := by
  unfold Store.headerPayload
  constructor
  · intro h
    split at h
    · cases h
    next hspan =>
    split at h
    · cases h
    next hchunk =>
    split at h
    · cases h
    next hstate =>
    split at h
    · cases h
    next hdata =>
    obtain ⟨slices, hslices, h⟩ := bind_ok h
    dsimp only at h
    split at h
    · cases h
    · next hblocks =>
      cases h
      exact ⟨⟨by omega, by omega, not_not.mp hchunk⟩, hstate, hdata, hslices, hblocks⟩
  · rintro ⟨⟨hpos, hle, hchunk⟩, hstate, hdata, hslices, hblocks⟩
    have hspan : ¬ (header.spanTokens = 0 ∨ maxCounter < header.spanTokens) := by omega
    refine (if_neg hspan).trans ((if_neg (not_not.mpr hchunk)).trans
      ((if_neg hstate).trans ((if_neg hdata).trans ?_)))
    change (store.layout.segments header.spanTokens header.kind >>= _) = _
    rw [hslices, ok_bind]
    exact if_neg hblocks

private theorem headerPayload_iff {store : TokenFileStore} {key : Digest} {p : HeaderPayload} :
    store.headerPayload key p.header p.digest (some p.blockSha256) = .ok p ↔
      p.key = key ∧ Store.headerPayload store.config key p.header = .ok p.segments ∧
      p.byteLength = (p.segments.map PageSlice.byteLength).sum ∧
      ¬ (p.blockSha256.length ≠ store.transferBlocks p.byteLength ∨
        store.transferBlocks p.byteLength = 1 ∧ p.blockSha256.head? ≠ some p.digest) := by
  constructor
  · intro h
    have hblocks : ¬ (p.blockSha256.length ≠ store.transferBlocks p.byteLength ∨
        store.transferBlocks p.byteLength = 1 ∧ p.blockSha256.head? ≠ some p.digest) := by
      obtain ⟨segments, -, h⟩ := bind_ok h
      dsimp only at h
      split at h
      · cases h
      · next hblocks =>
        rw [← Except.ok.inj h]
        exact hblocks
    obtain ⟨hsegments, hkey, -, -, hbytes, -⟩ := headerPayload_ok h
    exact ⟨hkey, hsegments, hbytes, hblocks⟩
  · rintro ⟨rfl, hsegments, hbytes, hblocks⟩
    unfold headerPayload
    rw [hsegments, ok_bind]
    dsimp only [Option.getD_some]
    rw [← hbytes, if_neg hblocks]
    rfl

/-- On values other than a missing table, `_header_payload` checks what the typed header checks. -/
theorem headerPayloadOf_ok {store : TokenFileStore} {key : Digest}
    {parent span digest kind blockSha256 : Json} {p : HeaderPayload}
    (hnull : isNull blockSha256 = false) :
    store.headerPayloadOf key parent span digest kind blockSha256 = .ok p ↔
      parent? parent = some p.header.parent ∧ span? span = some p.header.spanTokens ∧
      digest? digest = some p.digest ∧ kind? kind = some p.header.kind ∧
      blocks? blockSha256 = some p.blockSha256 ∧
      store.headerPayload key p.header p.digest (some p.blockSha256) = .ok p := by
  rw [headerPayload_iff, storeHeaderPayload_ok]
  constructor
  · intro h
    obtain ⟨n, hspan, h⟩ := bind_ok h
    obtain ⟨hint, hpos, hle⟩ := positive_ok hspan
    split at h
    · cases h
    · next d hd =>
      split at hd
      · next hchunk =>
        obtain ⟨⟨k, par⟩, hkind, h⟩ := bind_ok h
        obtain ⟨segments, hsegments, h⟩ := bind_ok h
        dsimp only at h
        split at h
        · cases h
        · next hcount =>
          obtain ⟨table, htable, h⟩ := bind_ok h
          cases h
          obtain ⟨hk, hpar, hstate, hdata⟩ := (kindAndParent_ok hpos hchunk).mp hkind
          obtain ⟨hblocks, hlength⟩ := (blockTable_ok hnull).mp htable
          have hspan : span? span = some n := by
            rw [hint]
            dsimp only [span?]
            rw [if_pos (Int.natCast_nonneg _), Int.toNat_natCast]
          exact ⟨hpar, hspan, hd, hk, hblocks, rfl,
            ⟨⟨hpos, hle, hchunk⟩, hstate, hdata, hsegments, hcount⟩, rfl, hlength⟩
      · cases hd
  · rintro ⟨hpar, hspan, hd, hk, hblocks, rfl, ⟨⟨hpos, hle, hchunk⟩, hstate, hdata, hsegments,
      hcount⟩, hbytes, hlength⟩
    have hint : span = .int p.header.spanTokens := by
      unfold span? at hspan
      split at hspan
      · split at hspan
        · have hn := Option.some.inj hspan
          exact congrArg Json.int (by omega)
        · cases hspan
      · cases hspan
    unfold headerPayloadOf
    rw [hint, positive_int _ hpos hle, ok_bind, if_pos hchunk, hd]
    dsimp only
    rw [(kindAndParent_ok hpos hchunk).mpr ⟨hk, hpar, hstate, hdata⟩, ok_bind]
    dsimp only
    rw [hsegments, ok_bind]
    rw [if_neg hcount, ← hbytes, (blockTable_ok hnull).mpr ⟨hblocks, hlength⟩, ok_bind]
    rfl

/-- The fields found in a header, as the typed values of its key. -/
theorem foundPayload_ok {store : TokenFileStore} {key : Digest} {payload : Json}
    {p : HeaderPayload} {blocks : Json} (hblocks : payload.field? "block_sha256" = some blocks)
    (hnull : isNull blocks = false) :
    store.foundPayload key payload = .ok p ↔
      headerValues payload = some (p.header, p.digest, p.blockSha256) ∧
        store.headerPayload key p.header p.digest (some p.blockSha256) = .ok p := by
  have hitem : ∀ {name v}, item payload name = .ok v ↔ payload.field? name = some v := by
    intro name v
    unfold item
    cases payload.field? name with
    | none => exact ⟨fun h ↦ (by cases h), fun h ↦ (by cases h)⟩
    | some w =>
      constructor
      · intro h
        cases h
        rfl
      · intro h
        cases h
        rfl
  constructor
  · intro h
    obtain ⟨parent, hparent, h⟩ := bind_ok h
    obtain ⟨span, hspan, h⟩ := bind_ok h
    obtain ⟨digest, hdigest, h⟩ := bind_ok h
    obtain ⟨kind, hkind, h⟩ := bind_ok h
    obtain ⟨table, htable, h⟩ := bind_ok h
    rw [hitem] at hparent hspan hdigest hkind htable
    rw [htable, Option.some.injEq] at hblocks
    rw [hblocks] at h htable
    obtain ⟨hpar, hsp, hd, hk, hbl, hheader⟩ := (headerPayloadOf_ok hnull).mp h
    refine ⟨?_, hheader⟩
    unfold headerValues
    rw [hparent, hspan, hdigest, hkind, htable]
    simp only [Option.bind_eq_bind, Option.bind_some, hpar, hsp, hd, hk, hbl]
    rfl
  · rintro ⟨h, hheader⟩
    unfold headerValues at h
    simp only [Option.bind_eq_bind, Option.bind_eq_some_iff] at h
    obtain ⟨par, ⟨parent, hparent, hpar⟩, n, ⟨span, hspan, hsp⟩, d, ⟨digest, hdigest, hd⟩, k,
      ⟨kind, hkind, hk⟩, bs, ⟨table, htable, hbl⟩, heq⟩ := h
    rw [htable, Option.some.injEq] at hblocks
    rw [hblocks] at htable hbl
    obtain ⟨hheader', heq⟩ := Prod.mk.inj (Option.some.inj heq)
    obtain ⟨hdigest', hblocks'⟩ := Prod.mk.inj heq
    unfold foundPayload
    rw [hitem.mpr hparent, ok_bind, hitem.mpr hspan, ok_bind, hitem.mpr hdigest, ok_bind,
      hitem.mpr hkind, ok_bind, hitem.mpr htable, ok_bind]
    refine (headerPayloadOf_ok hnull).mpr ⟨?_, ?_, ?_, ?_, ?_, hheader⟩
    · rw [← hheader']
      exact hpar
    · rw [← hheader']
      exact hsp
    · rw [← hdigest']
      exact hd
    · rw [← hheader']
      exact hk
    · rw [← hblocks']
      exact hbl

/-- What was read has the values of a typed header, which passes its checks. -/
theorem ReadsAs.typed {store : TokenFileStore} {key : Digest} {encoded : Bytes} {payload : Json}
    {p : HeaderPayload} (h : ReadsAs store key encoded payload p) :
    headerValues payload = some (p.header, p.digest, p.blockSha256) ∧
      store.headerPayload key p.header p.digest (some p.blockSha256) = .ok p := by
  have hfield : (store.headerJson p).field? "block_sha256" =
      some (.arr (p.blockSha256.map digestJson)) := rfl
  obtain ⟨blocks, hblocks, hsorted⟩ := h.field hfield
  have hnull : isNull blocks = false := by
    cases blocks with
    | null => cases hsorted
    | _ => rfl
  exact (foundPayload_ok hblocks hnull).mp h.found

/-- The typed decoder accepts what the block accepts. -/
theorem decodeHeader_iff {store : TokenFileStore} {key : Digest} {encoded : Bytes}
    {p : HeaderPayload} :
    store.decodeHeader key encoded = .ok p ↔ ∃ payload, ReadsAs store key encoded payload p := by
  constructor
  · intro h
    unfold decodeHeader at h
    split at h
    · cases h
    next payload hjson =>
    split at h
    · cases h
    next header digest blocks hvalues =>
    split at h
    · cases h
    next expected hheader =>
    split at h
    · cases h
    next hcanonical =>
    cases h
    obtain ⟨-, -, hh, hd, -, -, hb⟩ := headerPayload_ok hheader
    rw [← hh, ← hd, ← hb _ rfl] at hheader hvalues
    have hobject : ∃ fields, payload = .obj fields := by
      unfold headerValues at hvalues
      simp only [Option.bind_eq_bind, Option.bind_eq_some_iff] at hvalues
      obtain ⟨-, ⟨parent, hparent, -⟩, -⟩ := hvalues
      unfold Json.field? at hparent
      split at hparent
      · exact ⟨_, rfl⟩
      · cases hparent
    obtain ⟨blocks, hblocks, hnull⟩ : ∃ blocks, payload.field? "block_sha256" = some blocks ∧
        isNull blocks = false := by
      unfold headerValues at hvalues
      simp only [Option.bind_eq_bind, Option.bind_eq_some_iff] at hvalues
      obtain ⟨_, _, _, _, _, _, _, _, _, ⟨table, htable, hbl⟩, _⟩ := hvalues
      refine ⟨table, htable, ?_⟩
      cases table with
      | null => cases hbl
      | _ => rfl
    exact ⟨payload, hjson, hobject, (foundPayload_ok hblocks hnull).mpr ⟨hvalues, hheader⟩,
      not_not.mp hcanonical⟩
  · rintro ⟨payload, h⟩
    obtain ⟨hvalues, hheader⟩ := h.typed
    unfold decodeHeader
    rw [h.loads]
    dsimp only
    rw [hvalues]
    dsimp only
    rw [hheader]
    exact if_neg (not_not.mpr h.canonical)

private theorem decodeHeader_error {store : TokenFileStore} {key : Digest} {encoded : Bytes}
    {e : PyError} (h : store.decodeHeader key encoded = .error e) :
    e = .manifestError "invalid token metadata" := by
  unfold decodeHeader at h
  split at h
  · cases h
    rfl
  split at h
  · cases h
    rfl
  split at h
  · cases h
    rfl
  split at h
  · cases h
    rfl
  · cases h

/-- The payload length of an accepted header is in the bounds that are checked after it. -/
theorem ReadsAs.positive {store : TokenFileStore} {key : Digest} {encoded : Bytes} {payload : Json}
    {p : HeaderPayload} (h : ReadsAs store key encoded payload p) :
    p.byteLength ≠ 0 ∧ p.byteLength ≤ store.slotBytes * maxTransferBlocks := by
  obtain ⟨hsegments, -, -, -, hbytes, -⟩ := headerPayload_ok h.typed.2
  rw [hbytes]
  exact transferBlocks_bounds hsegments

/-- Reading without assumptions comes to the same as reading typed values. -/
theorem openBytes_eq_openData (store : TokenFileStore) (key : Digest) (data : Bytes) :
    store.openBytes key data = store.openData key data := by
  unfold openBytes openData
  cases hframe : readHeader data with
  | error e => rfl
  | ok r =>
    obtain ⟨encoded, checksum⟩ := r
    rw [ok_bind, ok_bind]
    dsimp only
    cases hread : store.readMetadata key encoded with
    | error e =>
      have hdecode : store.decodeHeader key encoded = .error e := by
        rw [readMetadata_error hread]
        cases hdecode : store.decodeHeader key encoded with
        | error e' => rw [decodeHeader_error hdecode]
        | ok p =>
          obtain ⟨payload, h⟩ := decodeHeader_iff.mp hdecode
          rw [readMetadata_ok.mpr (tryHeader_iff.mpr h)] at hread
          cases hread
      rw [hdecode]
      rfl
    | ok r =>
      obtain ⟨payload, p⟩ := r
      have h := tryHeader_iff.mp (readMetadata_ok.mp hread)
      have hitem : item payload "byte_length" = .ok (.int p.byteLength) := by
        unfold item
        rw [h.byteLength]
      obtain ⟨hne, hle⟩ := h.positive
      rw [decodeHeader_iff.mpr ⟨payload, h⟩, ok_bind, ok_bind]
      dsimp only
      rw [hitem, ok_bind, positive_int _ (Nat.pos_of_ne_zero hne) hle, ok_bind,
        if_neg (by omega : ¬ (p.byteLength = 0 ∨ store.slotBytes * maxTransferBlocks < p.byteLength))]

/-! ### Frames -/

private theorem readHeader_raises (data : Bytes) :
    OnlyRaises (fun e ↦ ∃ message, e = .manifestError message) (readHeader data) := by
  unfold readHeader
  split
  · exact onlyRaises_error ⟨_, rfl⟩
  split
  · exact onlyRaises_error ⟨_, rfl⟩
  dsimp only
  split
  · exact onlyRaises_error ⟨_, rfl⟩
  split
  · exact onlyRaises_error ⟨_, rfl⟩
  split
  · exact onlyRaises_error ⟨_, rfl⟩
  · exact onlyRaises_ok _

/-! ### Whole files -/

/-- The descriptor of a file with this header text. -/
def describe (key : Digest) (encoded : Bytes) (p : HeaderPayload) : FileDescriptor :=
  ⟨⟨key, p.header.parent, p.header.spanTokens, p.segments, p.header.kind⟩, p.byteLength, p.digest,
    frameSize + encoded.length, sha256 encoded, p.blockSha256⟩

/-- Bytes that do not open are refused with a manifest error. -/
theorem openBytes_raises (store : TokenFileStore) (key : Digest) (data : Bytes) :
    OnlyRaises (fun e ↦ ∃ message, e = .manifestError message) (store.openBytes key data) := by
  rw [openBytes_eq_openData]
  unfold openData
  refine (readHeader_raises data).bind fun r _ ↦ OnlyRaises.bind ?_ fun p _ ↦ ?_
  · intro e he
    exact ⟨_, decodeHeader_error he⟩
  · split
    · exact onlyRaises_error ⟨_, rfl⟩
    split
    · exact onlyRaises_error ⟨_, rfl⟩
    · exact onlyRaises_ok _

/-! ### Authentication -/

private theorem authenticateBlocks_raises (slotBytes : Nat) (blocks : List Digest) (remaining : Nat)
    (payload : Bytes) : OnlyRaises (fun e ↦ ∃ message, e = .manifestError message)
      (authenticateBlocks slotBytes blocks remaining payload) := by
  induction blocks generalizing remaining payload with
  | nil => exact onlyRaises_ok _
  | cons b blocks ih =>
    rw [authenticateBlocks]
    split
    · exact onlyRaises_error ⟨_, rfl⟩
    split
    · exact onlyRaises_error ⟨_, rfl⟩
    · exact ih _ _

/-- A payload that does not authenticate is refused with a manifest error. -/
theorem authenticate_raises (store : TokenFileStore) (desc : FileDescriptor) (body : Bytes) :
    OnlyRaises (fun e ↦ ∃ message, e = .manifestError message) (store.authenticate desc body) := by
  unfold authenticate
  refine (authenticateBlocks_raises _ _ _ _).bind fun remaining _ ↦ ?_
  split
  · exact onlyRaises_error ⟨_, rfl⟩
  · exact onlyRaises_ok _

end TokenFileStore

/-! ### Paths -/

/-- What a call on the bytes of a file ends with. -/
def opened (store : TokenFileStore) (key : Digest) (data : Bytes) :
    Outcome PyError (TokenFileStore.FileDescriptor × Bytes) :=
  match store.openBytes key data with
  | .ok desc => .returned (desc, data.drop desc.payloadOffset)
  | .error e => .raised e

/-- A file of a payload opens with the values it was committed with, and authenticates. -/
theorem FileOf.opens {store : TokenFileStore} {key : Digest} {header : TokenHeader}
    {input : CommitInput} {data : Bytes} (h : FileOf store key header input data) :
    ∃ payload desc, input.Carries store.slotBytes payload ∧
      store.openBytes key data = .ok desc ∧ desc.key = key ∧ desc.parent = header.parent ∧
      desc.spanTokens = header.spanTokens ∧ desc.kind = header.kind ∧
      data.drop desc.payloadOffset = payload ∧ store.authenticate desc payload = .ok () := by
  obtain ⟨payload, p, encoded, hcarries, hheader, hencode, rfl⟩ := h
  obtain ⟨htyped, hlength, hdigest, hblocks⟩ := TokenFileStore.commitHeader_ok hheader
  obtain ⟨-, hkey, hh, -⟩ := TokenFileStore.headerPayload_ok htyped
  refine ⟨payload, store.descriptor p, hcarries, ?_, hkey, congrArg TokenHeader.parent hh,
    congrArg TokenHeader.spanTokens hh, congrArg TokenHeader.kind hh,
    TokenFileStore.drop_payloadOffset hencode payload,
    TokenFileStore.authenticate_descriptor hlength hdigest hblocks⟩
  rw [TokenFileStore.openBytes_eq_openData]
  exact TokenFileStore.openData_encodeHeader htyped hencode hlength

end Store

end SpoolCache

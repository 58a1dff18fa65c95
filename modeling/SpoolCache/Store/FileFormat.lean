import SpoolCache.Base.Json
import SpoolCache.Store.TokenFiles

/-!
# Bytes of a token file

`token_files.py:43–44`, `token_files.py:175–321` and `token_files.py:353–408`. A file is a frame
with the length and checksum of its header, the header as canonical JSON, and the payload. The
header holds a checksum of the payload and one of each transfer block. What a publication writes
opens again and authenticates.
-/

namespace SpoolCache

open SpoolCache.Base

namespace Digest

/-! ### Texts of digests -/

/-- The last `width` hexadecimal digits of a number. -/
def hexChars : Nat → Nat → List Char
  | 0, _ => []
  | width + 1, n => hexChars width (n / 16) ++ [Json.hexDigit n]

/-- `hexdigest()`. -/
def hex (d : Digest) : String := String.ofList (hexChars 64 d.toNat)

/-- The number of hexadecimal digits. -/
def hexNumber (t : List Char) : Nat :=
  t.foldl (fun n c ↦ n * 16 + (Json.hexValue c).getD 0) 0

/-- `_is_digest`, `rank_store.py:944–949`, with the digest. -/
def ofHex? (s : String) : Option Digest :=
  if s.toList.length = 64 ∧ (s.toList.all fun c ↦ decide (c ∈ "0123456789abcdef".toList)) = true then
    some (.ofNat (hexNumber s.toList))
  else none

/-- A digest has as many digits as its width says. -/
theorem length_hexChars (width n : Nat) : (hexChars width n).length = width := by
  induction width generalizing n with
  | zero => rfl
  | succ width ih => rw [hexChars, List.length_append, ih, List.length_singleton]

private theorem hexDigit_mem (n : Nat) : Json.hexDigit n ∈ "0123456789abcdef".toList := by
  have hlt := Nat.mod_lt n (by decide : 0 < 16)
  unfold Json.hexDigit
  generalize n % 16 = m at hlt
  revert m
  decide

/-- Digits are lowercase hexadecimal. -/
theorem mem_hexChars {width n : Nat} {c : Char} (h : c ∈ hexChars width n) :
    c ∈ "0123456789abcdef".toList := by
  induction width generalizing n with
  | zero => cases h
  | succ width ih =>
    rcases List.mem_append.mp h with h | h
    · exact ih h
    · rw [List.mem_singleton.mp h]
      exact hexDigit_mem n

private theorem hexNumber_hexChars (width n : Nat) : hexNumber (hexChars width n) =
      n % 16 ^ width := by
  induction width generalizing n with
  | zero =>
    rw [Nat.pow_zero, Nat.mod_one]
    rfl
  | succ width ih =>
    have hstep : hexNumber (hexChars width (n / 16) ++ [Json.hexDigit n]) =
        hexNumber (hexChars width (n / 16)) * 16 + n % 16 := by
      unfold hexNumber
      rw [List.foldl_append, List.foldl_cons, List.foldl_nil, Json.hexValue_hexDigit]
      rfl
    rw [hexChars, hstep, ih, Nat.pow_succ', Nat.mod_mul]
    omega

private theorem ofHex?_hex (d : Digest) : ofHex? d.hex = some d := by
  have hlist : d.hex.toList = hexChars 64 d.toNat := String.toList_ofList
  have hnumber : ofNat (hexNumber (hexChars 64 d.toNat)) = d := by
    apply toNat_injective
    unfold ofNat
    dsimp only
    rw [hexNumber_hexChars]
    have := d.isLt
    omega
  have hall : ((hexChars 64 d.toNat).all fun c ↦ decide (c ∈ "0123456789abcdef".toList)) = true :=
    List.all_eq_true.mpr fun c hc ↦ decide_eq_true (mem_hexChars hc)
  unfold ofHex?
  rw [hlist, if_pos ⟨length_hexChars 64 _, hall⟩, hnumber]

end Digest

namespace Store

open SpoolCache.Layout SpoolCache.Prefix

/-! ### Headers -/

/-- `TOKEN_FILE_SCHEMA`, `token_files.py:39`. -/
def tokenFileSchema : String := "spoolcache-token-key-file/v3"

/-- The identities a store is opened with, `token_files.py:118–125`. -/
structure StoreIdentity where
  deploymentDigest : Digest
  rankDigest : Digest
  rank : Nat
  topologyDigest : Digest
  profile : String
  layoutDigest : Digest

/-- What a `TokenFileStore` is opened with, `token_files.py:113–149`. -/
structure TokenFileStore where
  layout : HMALayout
  slotBytes : Nat
  identity : StoreIdentity
  slotBytes_pos : 0 < slotBytes

/-- The values of a header, `token_files.py:207–218`. -/
structure HeaderPayload where
  key : Digest
  header : TokenHeader
  segments : List PageSlice
  byteLength : Nat
  digest : Digest
  blockSha256 : List Digest
  deriving DecidableEq

/-- A digest as a JSON text. -/
def digestJson (d : Digest) : Json := .str d.hex

/-- A parent as JSON. -/
def parentJson : Option Digest → Json
  | none => .null
  | some d => digestJson d

/-- The texts of kinds. -/
def kindText : FileKind → String
  | .data => "data"
  | .state => "state"

/-- `asdict` of a slice. -/
def sliceJson (s : PageSlice) : Json :=
  .obj [("byte_length", .int s.byteLength), ("group_index", .int s.groupIndex),
    ("layer_name", .str s.layerName), ("page_count", .int s.pageCount),
    ("page_start", .int s.pageStart)]

namespace TokenFileStore

/-- `_binding`, `token_files.py:140–146`. -/
def bindingJson (store : TokenFileStore) : Json :=
  .obj [("chunk_tokens", .int store.layout.chunkTokens),
    ("deployment_digest", digestJson store.identity.deploymentDigest),
    ("layout_digest", digestJson store.identity.layoutDigest),
    ("profile", .str store.identity.profile), ("rank", .int store.identity.rank),
    ("rank_digest", digestJson store.identity.rankDigest),
    ("storage_schema", .str tokenFileSchema),
    ("topology_digest", digestJson store.identity.topologyDigest),
    ("transfer_bytes", .int store.slotBytes)]

/-- A header as JSON, names in order. -/
def headerJson (store : TokenFileStore) (p : HeaderPayload) : Json :=
  .obj [("binding", store.bindingJson), ("block_sha256", .arr (p.blockSha256.map digestJson)),
    ("byte_length", .int p.byteLength), ("key", digestJson p.key),
    ("kind", .str (kindText p.header.kind)), ("parent", parentJson p.header.parent),
    ("schema", .str tokenFileSchema), ("segments", .arr (p.segments.map sliceJson)),
    ("sha256", digestJson p.digest), ("span_tokens", .int p.header.spanTokens)]

/-- Transfer blocks of a payload, `token_files.py:195`. -/
def transferBlocks (store : TokenFileStore) (length : Nat) : Nat :=
  (length + store.slotBytes - 1) / store.slotBytes

/-- The header of a kind and span with every digest zero. -/
def emptyPayload (store : TokenFileStore) (header : TokenHeader) : HeaderPayload :=
  let segments := match store.layout.segments header.spanTokens header.kind with
    | .ok segments => segments
    | .error _ => []
  let length := (segments.map PageSlice.byteLength).sum
  ⟨.ofNat 0, header, segments, length, .ofNat 0,
    List.replicate (store.transferBlocks length) (.ofNat 0)⟩

/-- The encoded length of the headers of a kind and span. -/
def headerLength (store : TokenFileStore) (header : TokenHeader) : Nat :=
  (Json.canonicalJson (store.headerJson (store.emptyPayload header))).length

/-- The store as the operations on whole files see it. -/
def config (store : TokenFileStore) : StoreConfig :=
  ⟨store.layout, store.slotBytes, store.headerLength, store.slotBytes_pos⟩

/-- `_header_payload`, `token_files.py:175–218`, on values of the right types. -/
def headerPayload (store : TokenFileStore) (key : Digest) (header : TokenHeader) (digest : Digest)
    (blockSha256 : Option (List Digest)) : Except PyError HeaderPayload := do
  let segments ← Store.headerPayload store.config key header
  let length := (segments.map PageSlice.byteLength).sum
  let blocks := store.transferBlocks length
  let blockSha256 := blockSha256.getD (List.replicate blocks (.ofNat 0))
  if blockSha256.length ≠ blocks ∨ blocks = 1 ∧ blockSha256.head? ≠ some digest then
    throw (.manifestError "token transfer checksums differ from geometry")
  else pure ⟨key, header, segments, length, digest, blockSha256⟩

/-! ### Frames -/

/-- `_MAGIC`, `token_files.py:44`. -/
def magic : Bytes := utf8 "SPCTOK02"

/-- `_FRAME.size`, `token_files.py:43`. -/
def frameSize : Nat := 44

/-- A frame with its header. -/
def frame (encoded : Bytes) : Bytes :=
  magic ++ leBytes 4 encoded.length ++ (sha256 encoded).toBytes ++ encoded

/-- `_encode_header`, `token_files.py:220–226`. -/
def encodeHeader (store : TokenFileStore) (p : HeaderPayload) : Except PyError Bytes :=
  let encoded := Json.canonicalJson (store.headerJson p)
  if encoded.length = 0 ∨ maxHeaderBytes < encoded.length then
    .error (.manifestError "invalid token file header length")
  else .ok (frame encoded)

/-- The number of little-endian bytes. -/
def leNumber (data : Bytes) : Nat := data.foldr (fun b n ↦ b.toNat + 256 * n) 0

/-- Frame and header of a file, `token_files.py:249–256`: the header and its checksum. -/
def readHeader (data : Bytes) : Except PyError (Bytes × Digest) :=
  if data.length < frameSize then .error (.manifestError "truncated token file")
  else if data.take 8 ≠ magic then .error (.manifestError "token file magic differs")
  else
    let size := leNumber ((data.drop 8).take 4)
    if size = 0 ∨ maxHeaderBytes < size then
      .error (.manifestError "invalid token file header length")
    else
      let encoded := (data.drop frameSize).take size
      if encoded.length < size then .error (.manifestError "truncated token file")
      else if (sha256 encoded).toBytes ≠ (data.drop 12).take 32 then
        .error (.manifestError "token header checksum differs")
      else .ok (encoded, sha256 encoded)

/-! ### Opening -/

/-- `TokenFileDescriptor`, `manifest.py:93–103`, with its checksums. -/
structure FileDescriptor extends TokenFileDescriptor where
  byteLength : Nat
  digest : Digest
  payloadOffset : Nat
  metadataDigest : Digest
  blockSha256 : List Digest
  deriving DecidableEq

/-- A digest of a JSON value. -/
def digest? : Json → Option Digest
  | .str s => Digest.ofHex? s
  | _ => none

/-- A parent of a JSON value. -/
def parent? : Json → Option (Option Digest)
  | .null => some none
  | v => (digest? v).map some

/-- A kind of a JSON value. -/
def kind? : Json → Option FileKind
  | .str s => if s = "data" then some .data else if s = "state" then some .state else none
  | _ => none

/-- A span of a JSON value. -/
def span? : Json → Option Nat
  | .int n => if 0 ≤ n then some n.toNat else none
  | _ => none

/-- Block checksums of a JSON value. -/
def blocks? : Json → Option (List Digest)
  | .arr items => items.mapM digest?
  | _ => none

/-- The values of a decoded header, `token_files.py:258–269`; other types raise. -/
def headerValues (payload : Json) : Option (TokenHeader × Digest × List Digest) := do
  let parent ← payload.field? "parent" >>= parent?
  let span ← payload.field? "span_tokens" >>= span?
  let digest ← payload.field? "sha256" >>= digest?
  let kind ← payload.field? "kind" >>= kind?
  let blocks ← payload.field? "block_sha256" >>= blocks?
  pure (⟨kind, parent, span⟩, digest, blocks)

/-- The header that belongs to a key, `token_files.py:257–281`. -/
def decodeHeader (store : TokenFileStore) (key : Digest) (encoded : Bytes) :
    Except PyError HeaderPayload :=
  match Json.loads encoded with
  | none => .error (.manifestError "invalid token metadata")
  | some payload =>
    match headerValues payload with
    | none => .error (.manifestError "invalid token metadata")
    | some (header, digest, blocks) =>
      match store.headerPayload key header digest (some blocks) with
      | .error _ => .error (.manifestError "invalid token metadata")
      | .ok expected =>
        if Json.canonicalJson payload ≠ Json.canonicalJson (store.headerJson expected) then
          .error (.manifestError "invalid token metadata")
        else .ok expected

/-- `_open_chunk` on the bytes of a file, `token_files.py:246–302`. -/
def openData (store : TokenFileStore) (key : Digest) (data : Bytes) :
    Except PyError FileDescriptor := do
  let (encoded, checksum) ← readHeader data
  let p ← store.decodeHeader key encoded
  if p.byteLength = 0 ∨ store.slotBytes * maxTransferBlocks < p.byteLength then
    throw (.manifestError "invalid token file payload length")
  else if data.length ≠ frameSize + encoded.length + p.byteLength then
    throw (.manifestError "token stored length differs")
  else
    pure ⟨⟨key, p.header.parent, p.header.spanTokens, p.segments, p.header.kind⟩, p.byteLength,
      p.digest, frameSize + encoded.length, checksum, p.blockSha256⟩

/-! ### Payloads -/

/-- The blocks of `_authenticate`, `token_files.py:306–318`; returns what remains. -/
def authenticateBlocks (slotBytes : Nat) : List Digest → Nat → Bytes → Except PyError Nat
  | [], remaining, _ => .ok remaining
  | expected :: rest, remaining, data =>
    let length := min remaining slotBytes
    if data.length < length then .error (.manifestError "truncated token file")
    else if sha256 (data.take length) ≠ expected then
      .error (.manifestError "token transfer block checksum differs")
    else authenticateBlocks slotBytes rest (remaining - length) (data.drop length)

/-- `_authenticate`, `token_files.py:304–321`, on the bytes after the header. -/
def authenticate (store : TokenFileStore) (desc : FileDescriptor) (payload : Bytes) :
    Except PyError Unit := do
  let remaining ← authenticateBlocks store.slotBytes desc.blockSha256 desc.byteLength payload
  if remaining ≠ 0 ∨ sha256 (payload.take desc.byteLength) ≠ desc.digest then
    throw (.manifestError "token payload checksum differs")
  else pure ()

/-- The transfer blocks of a payload, `token_files.py:357–359`. -/
def pieces (slotBytes : Nat) (payload : Bytes) : List Bytes :=
  (List.range ((payload.length + slotBytes - 1) / slotBytes)).map fun i ↦
    (payload.drop (i * slotBytes)).take slotBytes

/-- The header `commit_chunk` gives a payload, `token_files.py:360–367`. -/
def commitHeader (store : TokenFileStore) (key : Digest) (header : TokenHeader) (payload : Bytes) :
    Except PyError HeaderPayload := do
  let p ← store.headerPayload key header (sha256 payload)
    (some ((pieces store.slotBytes payload).map sha256))
  if payload.length ≠ p.byteLength then
    throw (.manifestError "captured token payload differs from geometry")
  else pure p

/-! ### Reading frames back -/

private theorem leNumber_leBytes (width n : Nat) :
    leNumber (leBytes width n) = n % 256 ^ width := by
  induction width generalizing n with
  | zero =>
    rw [Nat.pow_zero, Nat.mod_one]
    rfl
  | succ width ih =>
    have hstep : leNumber (leBytes (width + 1) n) =
        n % 256 + 256 * leNumber (leBytes width (n / 256)) := by
      change (UInt8.ofNat (n % 256)).toNat + 256 * leNumber (leBytes width (n / 256)) = _
      rw [UInt8.toNat_ofNat']
      omega
    rw [hstep, ih, Nat.pow_succ', Nat.mod_mul]

private theorem length_magic : magic.length = 8 := by decide

/-- The header ends where its length says, after the fixed frame. -/
theorem length_frame (encoded : Bytes) : (frame encoded).length = frameSize + encoded.length := by
  unfold frame frameSize
  rw [List.length_append, List.length_append, List.length_append, length_magic, length_leBytes,
    Digest.length_toBytes]

/-- A framed header within its bounds is read back, whatever follows it. -/
theorem readHeader_frame {encoded : Bytes} (hpos : encoded.length ≠ 0)
    (hle : encoded.length ≤ maxHeaderBytes) (payload : Bytes) :
    readHeader (frame encoded ++ payload) = .ok (encoded, sha256 encoded) := by
  have hlength : (frame encoded ++ payload).length = frameSize + encoded.length + payload.length := by
    rw [List.length_append, length_frame]
  have heq : frame encoded ++ payload =
      magic ++ (leBytes 4 encoded.length ++ ((sha256 encoded).toBytes ++ (encoded ++ payload))) := by
    unfold frame
    rw [List.append_assoc, List.append_assoc, List.append_assoc]
  have htake : (frame encoded ++ payload).take 8 = magic := by
    rw [heq, List.take_append_of_le_length (by rw [length_magic]), ← length_magic, List.take_length]
  have hdrop : (frame encoded ++ payload).drop 8 =
      leBytes 4 encoded.length ++ ((sha256 encoded).toBytes ++ (encoded ++ payload)) := by
    rw [heq, ← length_magic, List.drop_left]
  have hdrop12 : (frame encoded ++ payload).drop 12 =
      (sha256 encoded).toBytes ++ (encoded ++ payload) := by
    have h4 : (leBytes 4 encoded.length ++ ((sha256 encoded).toBytes ++ (encoded ++ payload))).drop 4 =
        (sha256 encoded).toBytes ++ (encoded ++ payload) :=
      List.drop_left' (length_leBytes 4 encoded.length)
    rw [← h4, ← hdrop, List.drop_drop]
  have hdrop44 : (frame encoded ++ payload).drop frameSize = encoded ++ payload := by
    have h32 : ((sha256 encoded).toBytes ++ (encoded ++ payload)).drop 32 = encoded ++ payload :=
      List.drop_left' (Digest.length_toBytes _)
    rw [← h32, ← hdrop12, List.drop_drop]
    rfl
  have hsize : leNumber (((frame encoded ++ payload).drop 8).take 4) = encoded.length := by
    rw [hdrop, List.take_append_of_le_length (by rw [length_leBytes]),
      List.take_of_length_le (by rw [length_leBytes]), leNumber_leBytes]
    unfold maxHeaderBytes at hle
    omega
  have hencoded : ((frame encoded ++ payload).drop frameSize).take encoded.length = encoded := by
    rw [hdrop44, List.take_left]
  have hsum : ((frame encoded ++ payload).drop 12).take 32 = (sha256 encoded).toBytes := by
    rw [hdrop12, List.take_append_of_le_length (by rw [Digest.length_toBytes]),
      List.take_of_length_le (by rw [Digest.length_toBytes])]
  unfold readHeader
  rw [if_neg (by omega), if_neg (by rw [htake]; exact not_not.mpr rfl)]
  dsimp only
  rw [hsize, if_neg (by omega), hencoded, if_neg (lt_irrefl _), hsum, if_neg (not_not.mpr rfl)]

/-! ### Reading headers back -/

/-- The fields of a slice are sorted by name. -/
theorem canonical_sliceJson (s : PageSlice) : (sliceJson s).Canonical := by
  have hnames : ["byte_length", "group_index", "layer_name", "page_count", "page_start"].Pairwise
      (· < ·) := by decide +kernel
  exact ⟨hnames, trivial, trivial, trivial, trivial, trivial, trivial⟩

private theorem canonical_digestJson (d : Digest) : (digestJson d).Canonical := trivial

private theorem canonical_parentJson (parent : Option Digest) : (parentJson parent).Canonical := by
  cases parent <;> exact trivial

/-- The fields of the binding are sorted by name. -/
theorem canonical_bindingJson (store : TokenFileStore) : store.bindingJson.Canonical := by
  have hnames : ["chunk_tokens", "deployment_digest", "layout_digest", "profile", "rank",
      "rank_digest", "storage_schema", "topology_digest", "transfer_bytes"].Pairwise
      (· < ·) := by decide +kernel
  exact ⟨hnames, trivial, trivial, trivial, trivial, trivial, trivial, trivial, trivial, trivial,
    trivial⟩

/-- The fields of a header are sorted by name. -/
theorem canonical_headerJson (store : TokenFileStore) (p : HeaderPayload) :
    (store.headerJson p).Canonical := by
  have hnames : ["binding", "block_sha256", "byte_length", "key", "kind", "parent", "schema",
      "segments", "sha256", "span_tokens"].Pairwise (· < ·) := by decide +kernel
  have hblocks : Json.CanonicalItems (p.blockSha256.map digestJson) :=
    Json.canonicalItems_map canonical_digestJson _
  have hsegments : Json.CanonicalItems (p.segments.map sliceJson) :=
    Json.canonicalItems_map canonical_sliceJson _
  exact ⟨hnames, store.canonical_bindingJson, hblocks, trivial, trivial, trivial,
    canonical_parentJson p.header.parent, trivial, hsegments, trivial, trivial, trivial⟩

private theorem loads_headerJson (store : TokenFileStore) (p : HeaderPayload) :
    Json.loads (Json.canonicalJson (store.headerJson p)) = some (store.headerJson p) := by
  have h := Json.loads_canonicalJson (store.canonical_headerJson p) [] (.inl rfl)
  rwa [show Json.encodeText [] = [] from rfl, List.append_nil] at h

private theorem digest?_digestJson (d : Digest) : digest? (digestJson d) = some d := by
  rw [digestJson, digest?, Digest.ofHex?_hex]

private theorem parent?_parentJson (parent : Option Digest) : parent? (parentJson parent) =
      some parent := by
  cases parent with
  | none => rfl
  | some d =>
    have h : parent? (parentJson (some d)) = (digest? (digestJson d)).map some := by
      rw [parentJson, digestJson, parent?]
      intro h
      cases h
    rw [h, digest?_digestJson, Option.map_some]

private theorem kind?_kindText (kind : FileKind) : kind? (.str (kindText kind)) = some kind := by
  cases kind <;> rfl

private theorem blocks?_digests (blocks : List Digest) :
    blocks? (.arr (blocks.map digestJson)) = some blocks := by
  dsimp only [blocks?]
  induction blocks with
  | nil => rfl
  | cons d blocks ih =>
    rw [List.map_cons, List.mapM_cons, digest?_digestJson, ih]
    rfl

private theorem headerValues_headerJson (store : TokenFileStore) (p : HeaderPayload) :
    headerValues (store.headerJson p) = some (p.header, p.digest, p.blockSha256) := by
  have hparent : (store.headerJson p).field? "parent" = some (parentJson p.header.parent) := rfl
  have hspan : (store.headerJson p).field? "span_tokens" = some (.int p.header.spanTokens) := rfl
  have hdigest : (store.headerJson p).field? "sha256" = some (digestJson p.digest) := rfl
  have hkind : (store.headerJson p).field? "kind" = some (.str (kindText p.header.kind)) := rfl
  have hblocks : (store.headerJson p).field? "block_sha256" =
      some (.arr (p.blockSha256.map digestJson)) := rfl
  have hint : span? (.int p.header.spanTokens) = some p.header.spanTokens := by
    dsimp only [span?]
    rw [if_pos (Int.natCast_nonneg _), Int.toNat_natCast]
  unfold headerValues
  rw [hparent, hspan, hdigest, hkind, hblocks]
  simp only [Option.bind_eq_bind, Option.bind_some, parent?_parentJson, hint, digest?_digestJson,
    kind?_kindText, blocks?_digests]
  rfl

/-- What a computed header is made of: the segments, and the arguments as they came. -/
theorem headerPayload_ok {store : TokenFileStore} {key : Digest} {header : TokenHeader}
    {digest : Digest} {blocks : Option (List Digest)} {p : HeaderPayload}
    (h : store.headerPayload key header digest blocks = .ok p) :
    Store.headerPayload store.config key header = .ok p.segments ∧
      p.key = key ∧ p.header = header ∧ p.digest = digest ∧
      p.byteLength = (p.segments.map PageSlice.byteLength).sum ∧
      p.blockSha256.length = store.transferBlocks p.byteLength ∧
      ∀ l, blocks = some l → p.blockSha256 = l := by
  obtain ⟨segments, hs, h⟩ := bind_ok h
  dsimp only at h
  split at h
  · cases h
  · next hblocks =>
    cases h
    refine ⟨hs, rfl, rfl, rfl, rfl, ?_, ?_⟩
    · dsimp only
      by_contra hne
      exact hblocks (.inl hne)
    · intro l hl
      rw [hl]
      rfl

private theorem headerPayload_some {store : TokenFileStore} {key : Digest} {header : TokenHeader}
    {digest : Digest} {blocks : Option (List Digest)} {p : HeaderPayload}
    (h : store.headerPayload key header digest blocks = .ok p) :
    store.headerPayload key header digest (some p.blockSha256) = .ok p := by
  obtain ⟨segments, hs, h⟩ := bind_ok h
  dsimp only at h
  split at h
  · cases h
  · next hblocks =>
    cases h
    unfold headerPayload
    rw [hs]
    exact if_neg hblocks

private theorem decodeHeader_headerJson {store : TokenFileStore} {key : Digest}
    {header : TokenHeader} {digest : Digest} {blocks : Option (List Digest)} {p : HeaderPayload}
    (h : store.headerPayload key header digest blocks = .ok p) :
    store.decodeHeader key (Json.canonicalJson (store.headerJson p)) = .ok p := by
  obtain ⟨-, -, hheader, hdigest, -⟩ := headerPayload_ok h
  unfold decodeHeader
  rw [loads_headerJson]
  dsimp only
  rw [headerValues_headerJson, hheader, hdigest]
  dsimp only
  rw [headerPayload_some h]
  exact if_neg (not_not.mpr rfl)

/-! ### Files that were written open -/

/-- The descriptor of a header. -/
def descriptor (store : TokenFileStore) (p : HeaderPayload) : FileDescriptor :=
  let encoded := Json.canonicalJson (store.headerJson p)
  ⟨⟨p.key, p.header.parent, p.header.spanTokens, p.segments, p.header.kind⟩, p.byteLength, p.digest,
    frameSize + encoded.length, sha256 encoded, p.blockSha256⟩

/-- A valid header has a payload of at least one byte and of no more than the transfer blocks. -/
theorem transferBlocks_bounds {store : TokenFileStore} {key : Digest} {header : TokenHeader}
    {segments : List PageSlice} (h : Store.headerPayload store.config key header = .ok segments) :
    (segments.map PageSlice.byteLength).sum ≠ 0 ∧
      (segments.map PageSlice.byteLength).sum ≤ store.slotBytes * maxTransferBlocks := by
  have hslot := store.slotBytes_pos
  unfold Store.headerPayload at h
  split at h
  · cases h
  split at h
  · cases h
  split at h
  · cases h
  split at h
  · cases h
  obtain ⟨slices, -, h⟩ := bind_ok h
  dsimp only at h
  split at h
  · cases h
  · next hblocks =>
    cases h
    change ¬ ((_ + store.slotBytes - 1) / store.slotBytes = 0 ∨
      maxTransferBlocks < (_ + store.slotBytes - 1) / store.slotBytes) at hblocks
    rw [not_or, Nat.not_lt] at hblocks
    constructor
    · intro hzero
      rw [hzero, Nat.zero_add] at hblocks
      exact hblocks.1 (Nat.div_eq_of_lt (by omega))
    · have hle := (Nat.div_le_iff_le_mul_add_pred hslot).mp hblocks.2
      omega

/-- A frame with an encoded header and a payload of its length opens. -/
theorem openData_encodeHeader {store : TokenFileStore} {key : Digest} {header : TokenHeader}
    {digest : Digest} {blocks : Option (List Digest)} {p : HeaderPayload} {encoded payload : Bytes}
    (h : store.headerPayload key header digest blocks = .ok p)
    (hencode : store.encodeHeader p = .ok encoded) (hlength : payload.length = p.byteLength) :
    store.openData key (encoded ++ payload) = .ok (store.descriptor p) := by
  obtain ⟨hsegments, hkey, -, -, hbytes, -⟩ := headerPayload_ok h
  obtain ⟨hpos, hle⟩ := transferBlocks_bounds hsegments
  have hdecode := decodeHeader_headerJson h
  unfold encodeHeader at hencode
  unfold descriptor
  generalize Json.canonicalJson (store.headerJson p) = text at hdecode hencode
  dsimp only at hencode ⊢
  split at hencode
  · cases hencode
  · next hheader =>
    cases hencode
    rw [not_or, Nat.not_lt] at hheader
    have hlen : (frame text ++ payload).length = frameSize + text.length + p.byteLength := by
      rw [List.length_append, length_frame, hlength]
    unfold openData
    rw [readHeader_frame hheader.1 hheader.2]
    rw [ok_bind]
    dsimp only
    rw [hdecode, ok_bind, if_neg (by rw [hbytes]; omega), if_neg (not_not.mpr hlen), hkey]
    rfl

/-! ### Files that were written authenticate -/

/-- An empty payload has no piece. -/
theorem pieces_nil (slotBytes : Nat) : pieces slotBytes [] = [] := by
  unfold pieces
  rw [List.length_nil, Nat.zero_add]
  cases slotBytes with
  | zero => rfl
  | succ n => rw [Nat.add_sub_cancel, Nat.div_eq_of_lt (Nat.lt_succ_self n)]; rfl

/-- The first piece fills a slot, and the rest is cut in the same way. -/
theorem pieces_cons {slotBytes : Nat} (hslot : 0 < slotBytes) {payload : Bytes}
    (h : payload ≠ []) :
    pieces slotBytes payload =
      payload.take slotBytes :: pieces slotBytes (payload.drop slotBytes) := by
  have hpos : 0 < payload.length := List.length_pos_iff.mpr h
  have hcount : (payload.length + slotBytes - 1) / slotBytes =
      ((payload.drop slotBytes).length + slotBytes - 1) / slotBytes + 1 := by
    rw [List.length_drop]
    rcases Nat.lt_or_ge payload.length slotBytes with hlt | hge
    · rw [Nat.sub_eq_zero_of_le hlt.le, Nat.zero_add, Nat.div_eq_of_lt (by omega : slotBytes - 1 < _)]
      have hdiv : payload.length + slotBytes - 1 = (payload.length - 1) + slotBytes := by omega
      rw [hdiv, Nat.add_div_right _ hslot, Nat.div_eq_of_lt (by omega)]
    · have hdiv : payload.length + slotBytes - 1 =
          (payload.length - slotBytes + slotBytes - 1) + slotBytes := by omega
      rw [hdiv, Nat.add_div_right _ hslot]
  unfold pieces
  rw [hcount, List.range_succ_eq_map, List.map_cons, List.map_map, Nat.zero_mul, List.drop_zero]
  congr 1
  refine List.map_congr_left fun i _ ↦ ?_
  change (payload.drop ((i + 1) * slotBytes)).take slotBytes = _
  rw [List.drop_drop, Nat.add_mul, Nat.one_mul, Nat.add_comm]

/-- A first piece that is full, or the only one. -/
theorem pieces_append {slotBytes : Nat} {piece rest : Bytes} (hpos : piece ≠ [])
    (h : piece.length = slotBytes ∨ piece.length ≤ slotBytes ∧ rest = []) :
    pieces slotBytes (piece ++ rest) = piece :: pieces slotBytes rest := by
  have hlen : 0 < piece.length := List.length_pos_iff.mpr hpos
  rw [pieces_cons (by rcases h with h | h <;> omega) (List.append_ne_nil_of_left_ne_nil hpos rest)]
  rcases h with h | ⟨hle, rfl⟩
  · rw [List.take_left' h, List.drop_left' h]
  · rw [List.append_nil, List.take_of_length_le hle, List.drop_of_length_le hle]

/-- As many pieces as slots, the last one perhaps not full. -/
theorem length_pieces (slotBytes : Nat) (payload : Bytes) :
    (pieces slotBytes payload).length = (payload.length + slotBytes - 1) / slotBytes := by
  unfold pieces
  rw [List.length_map, List.length_range]

/-- The blocks of a payload authenticate it, whatever follows. -/
theorem authenticateBlocks_pieces {slotBytes : Nat} (hslot : 0 < slotBytes)
    (payload rest : Bytes) :
    authenticateBlocks slotBytes ((pieces slotBytes payload).map sha256) payload.length
      (payload ++ rest) = .ok 0 := by
  induction hn : payload.length using Nat.strong_induction_on generalizing payload with
  | _ n ih =>
    subst hn
    by_cases hempty : payload = []
    · subst hempty
      rw [pieces_nil]
      rfl
    · have hpos : 0 < payload.length := List.length_pos_iff.mpr hempty
      rw [pieces_cons hslot hempty, List.map_cons, authenticateBlocks]
      have htake : (payload ++ rest).take (min payload.length slotBytes) =
          payload.take slotBytes := by
        rw [List.take_append_of_le_length (Nat.min_le_left _ _), Nat.min_comm, ← List.take_eq_take_min]
      have hdrop : (payload ++ rest).drop (min payload.length slotBytes) =
          payload.drop slotBytes ++ rest := by
        rw [List.drop_append_of_le_length (Nat.min_le_left _ _)]
        congr 1
        rcases Nat.le_total payload.length slotBytes with hle | hge
        · rw [Nat.min_eq_left hle, List.drop_length, List.drop_of_length_le hle]
        · rw [Nat.min_eq_right hge]
      have hremaining : payload.length - min payload.length slotBytes =
          (payload.drop slotBytes).length := by
        rw [List.length_drop]
        omega
      rw [htake, hdrop, hremaining, if_neg (by rw [List.length_append]; omega),
        if_neg (not_not.mpr rfl)]
      exact ih _ (by rw [List.length_drop]; omega) (payload.drop slotBytes) rfl

/-- The payload of a header with its own checksums authenticates. -/
theorem authenticate_descriptor {store : TokenFileStore} {p : HeaderPayload} {payload : Bytes}
    (hlength : payload.length = p.byteLength) (hdigest : p.digest = sha256 payload)
    (hblocks : p.blockSha256 = (pieces store.slotBytes payload).map sha256) :
    store.authenticate (store.descriptor p) payload = .ok () := by
  unfold authenticate descriptor
  dsimp only
  rw [hblocks, ← hlength]
  have hall := authenticateBlocks_pieces store.slotBytes_pos payload []
  rw [List.append_nil] at hall
  rw [hall, ok_bind, List.take_length, hdigest, if_neg (by simp)]
  rfl

/-- The header of a commit is about the payload that is given, and as long as the slices say. -/
theorem commitHeader_ok {store : TokenFileStore} {key : Digest} {header : TokenHeader}
    {payload : Bytes} {p : HeaderPayload} (h : store.commitHeader key header payload = .ok p) :
    store.headerPayload key header (sha256 payload)
        (some ((pieces store.slotBytes payload).map sha256)) = .ok p ∧
      payload.length = p.byteLength ∧ p.digest = sha256 payload ∧
      p.blockSha256 = (pieces store.slotBytes payload).map sha256 := by
  obtain ⟨q, hq, h⟩ := bind_ok h
  split at h
  · cases h
  · next hlength =>
    cases h
    obtain ⟨-, -, -, hdigest, -, -, hblocks⟩ := headerPayload_ok hq
    exact ⟨hq, not_not.mp hlength, hdigest, hblocks _ rfl⟩

/-- The bytes of a complete file of a key: they open, and the payload authenticates. -/
def Complete (store : TokenFileStore) (key : Digest) (data : Bytes) : Prop :=
  ∃ desc, store.openData key data = .ok desc ∧
    store.authenticate desc (data.drop desc.payloadOffset) = .ok ()

/-- The payload starts where the descriptor says. -/
theorem drop_payloadOffset {store : TokenFileStore} {p : HeaderPayload} {encoded : Bytes}
    (hencode : store.encodeHeader p = .ok encoded) (payload : Bytes) :
    (encoded ++ payload).drop (store.descriptor p).payloadOffset = payload := by
  unfold encodeHeader at hencode
  unfold descriptor
  dsimp only at hencode ⊢
  split at hencode
  · cases hencode
  · cases hencode
    exact List.drop_left' (length_frame _)

/-- What is written for a payload is a complete file. -/
theorem complete_commitHeader {store : TokenFileStore} {key : Digest} {header : TokenHeader}
    {payload encoded : Bytes} {p : HeaderPayload}
    (h : store.commitHeader key header payload = .ok p)
    (hencode : store.encodeHeader p = .ok encoded) : store.Complete key (encoded ++ payload) := by
  obtain ⟨hheader, hlength, hdigest, hblocks⟩ := commitHeader_ok h
  refine ⟨store.descriptor p, openData_encodeHeader hheader hencode hlength, ?_⟩
  rw [drop_payloadOffset hencode]
  exact authenticate_descriptor hlength hdigest hblocks

end TokenFileStore

end Store

end SpoolCache

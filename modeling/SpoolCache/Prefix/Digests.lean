import SpoolCache.Core.Values

/-!
# Exact-prefix digests

`prefix.py:36–199` and `token_files.py:51–62`. A prefix key chains the token chunks from an
initial digest of deployment and salt; media below the boundary is mixed in at the boundary
only. Texts are sequences of Unicode scalar values, so their UTF-8 encoding never fails;
`struct` packing fails from `2 ^ 64` on.
-/

namespace SpoolCache.Prefix

open SpoolCache.Base

/-! ### Media features -/

/-- `MultimodalFeatureIdentity`, `prefix.py:20–27`, with valid fields. -/
structure MultimodalFeatureIdentity where
  modality : String
  identifier : String
  offset : Nat
  length : Nat
  deriving DecidableEq

/-- A feature record as it arrives. -/
structure RawFeature where
  modality : Option String
  identifier : Option String
  offset : PyInt
  length : PyInt
  deriving DecidableEq

/-- A typed feature as a record. -/
def MultimodalFeatureIdentity.toRaw (f : MultimodalFeatureIdentity) : RawFeature :=
  ⟨some f.modality, some f.identifier, some f.offset, some f.length⟩

/-- Checks on one feature, `prefix.py:53–80`; `none` is a value of another type. -/
def validateFeature (tokenCount previousEnd : Nat) (feature : Option RawFeature) :
    Except PyError MultimodalFeatureIdentity :=
  match feature with
  | none => .error (.valueError "multimodal feature identity has an invalid type")
  | some feature =>
    match feature.modality.filter (· ≠ "") with
    | none => .error (.valueError "multimodal feature modality must be non-empty")
    | some modality =>
      match feature.identifier.filter (· ≠ "") with
      | none => .error (.valueError "multimodal feature identifier must be non-empty")
      | some identifier =>
        match feature.offset, feature.length with
        | some offset, some length =>
          if offset < 0 ∨ length ≤ 0 then
            .error (.valueError "multimodal feature geometry is invalid")
          else if offset < previousEnd then
            .error (.valueError "multimodal feature ranges must be ordered and disjoint")
          else if (tokenCount : Int) < offset + length then
            .error (.valueError "multimodal feature range exceeds the prompt")
          else .ok ⟨modality, identifier, offset.toNat, length.toNat⟩
        | _, _ => .error (.valueError "multimodal feature geometry is invalid")

/-- The loop of `validate_multimodal_features` from one range end on. -/
def validateFeaturesFrom (tokenCount : Nat) :
    Nat → List (Option RawFeature) → Except PyError (List MultimodalFeatureIdentity)
  | _, [] => .ok []
  | previousEnd, feature :: features => do
    let f ← validateFeature tokenCount previousEnd feature
    let rest ← validateFeaturesFrom tokenCount (f.offset + f.length) features
    pure (f :: rest)

/-- `validate_multimodal_features`, `prefix.py:36–81`, for a valid token count. -/
def validateMultimodalFeatures (features : List (Option RawFeature)) (tokenCount : Nat) :
    Except PyError (List MultimodalFeatureIdentity) :=
  validateFeaturesFrom tokenCount 0 features

/-! ### Encodings -/

/-- `_DOMAIN`, `prefix.py:15`. -/
def domain : Bytes := utf8 "spoolcache-exact-prefix/v2" ++ [0]

/-- `_MULTIMODAL_DOMAIN`, `prefix.py:16`. -/
def multimodalDomain : Bytes := utf8 "spoolcache-multimodal-prefix/v1" ++ [0]

/-- `_COUNT.pack`, `prefix.py:13`. -/
def packCount (n : Nat) : Except PyError Bytes :=
  if n < 2 ^ 64 then .ok (le64 n) else .error (.structError "int too large to convert")

/-- Encoding of one feature, `prefix.py:91–98`. -/
def encodeFeature (f : MultimodalFeatureIdentity) : Except PyError Bytes := do
  let offset ← packCount f.offset
  let length ← packCount f.length
  let modalityLength ← packCount (utf8 f.modality).length
  let identifierLength ← packCount (utf8 f.identifier).length
  pure (offset ++ length ++ modalityLength ++ utf8 f.modality ++ identifierLength ++
    utf8 f.identifier)

/-- The features whose range starts below the span. -/
def activeFeatures (features : List MultimodalFeatureIdentity) (span : Nat) :
    List MultimodalFeatureIdentity := features.filter fun f ↦ decide (f.offset < span)

/-- `_multimodal_payload`, `prefix.py:84–99`. -/
def multimodalPayload (features : List MultimodalFeatureIdentity) (span : Nat) :
    Except PyError Bytes :=
  let active := activeFeatures features span
  if active = [] then .ok []
  else do
    let count ← packCount active.length
    let encoded ← active.mapM encodeFeature
    pure (multimodalDomain ++ count ++ encoded.flatten)

/-- What `_initial_digest` hashes. -/
def initialInput (deployment : Digest) (salt : String) : Bytes :=
  domain ++ deployment.toBytes ++ le64 (utf8 salt).length ++ utf8 salt

/-- `_initial_digest`, `prefix.py:129–145`. -/
def initialDigest (deployment : Option Digest) (salt : String) : Except PyError Digest :=
  match deployment with
  | none => .error (.identityError "deployment digest is not SHA-256")
  | some deployment => do
    let _ ← packCount (utf8 salt).length
    pure (sha256 (initialInput deployment salt))

/-- What one round of the chain hashes, `prefix.py:188–191`. -/
def chunkInput (previous : Digest) (chunk : List Int) : Bytes :=
  previous.toBytes ++ (le64 chunk.length ++ chunk.flatMap leInt64)

/-! ### Digests at boundaries -/

/-- `PrefixDigest`, `prefix.py:30–33`. -/
structure PrefixDigest where
  spanTokens : Nat
  digest : Digest
  deriving DecidableEq

/-- The digest at a requested boundary, `prefix.py:193–196`. -/
def boundaryDigest (previous : Digest) (features : List MultimodalFeatureIdentity) (span : Nat) :
    Except PyError Digest := do
  let media ← multimodalPayload features span
  pure (if media = [] then previous else sha256 (previous.toBytes ++ media))

/-- The loop of `prefix_digests` over chunk starts, `prefix.py:182–198`. -/
def prefixLoop (tokens : List Int) (chunkTokens : Nat) (requested : List Nat)
    (features : List MultimodalFeatureIdentity) :
    List Nat → Digest → Except PyError (List PrefixDigest)
  | [], _ => .ok []
  | start :: starts, previous =>
    let chunk := (tokens.drop start).take chunkTokens
    if chunk.length < chunkTokens then .ok []
    else do
      let _ ← packCount chunk.length
      let previous := sha256 (chunkInput previous chunk)
      let span := start + chunkTokens
      if span ∈ requested then
        let digest ← boundaryDigest previous features span
        let rest ← prefixLoop tokens chunkTokens requested features starts previous
        pure (⟨span, digest⟩ :: rest)
      else prefixLoop tokens chunkTokens requested features starts previous

/-- Token checks, `prefix.py:166–170`. -/
def validateToken (token : PyInt) : Except PyError Int :=
  match token with
  | none => .error (.valueError "token IDs must be integers")
  | some t =>
    if IsInt64 t then .ok t else .error (.valueError "token ID is outside signed 64-bit range")

/-- Boundary checks, `prefix.py:171–184`. -/
def validateBoundary (chunkTokens tokenCount : Nat) (boundary : PyInt) : Except PyError Nat :=
  match boundary with
  | some b =>
    if b ≤ 0 ∨ (tokenCount : Int) < b ∨ b % chunkTokens ≠ 0 then
      .error (.valueError "prefix boundaries must be positive aligned token counts")
    else .ok b.toNat
  | none => .error (.valueError "prefix boundaries must be positive aligned token counts")

/-- Requested boundaries; by default every chunk boundary. -/
def requestedBoundaries (chunkTokens tokenCount : Nat) (boundaries : Option (List PyInt)) :
    Except PyError (List Nat) :=
  match boundaries with
  | none => .ok ((List.range (tokenCount / chunkTokens)).map fun i ↦ (i + 1) * chunkTokens)
  | some boundaries => boundaries.mapM (validateBoundary chunkTokens tokenCount)

/-- `range(0, len(tokens), chunk_tokens)`. -/
def chunkStarts (tokenCount chunkTokens : Nat) : List Nat :=
  (List.range ((tokenCount + chunkTokens - 1) / chunkTokens)).map fun i ↦ i * chunkTokens

/-- `prefix_digests`, `prefix.py:148–199`. -/
def prefixDigests (tokenIds : List PyInt) (deploymentDigest : Option Digest)
    (cacheSalt : String) (chunkTokens : Int) (boundaries : Option (List PyInt))
    (features : List (Option RawFeature)) : Except PyError (List PrefixDigest) :=
  if chunkTokens ≤ 0 then .error (.valueError "chunk_tokens must be positive")
  else do
    let tokens ← tokenIds.mapM validateToken
    let requested ← requestedBoundaries chunkTokens.toNat tokens.length boundaries
    let features ← validateMultimodalFeatures features tokens.length
    let initial ← initialDigest deploymentDigest cacheSalt
    prefixLoop tokens chunkTokens.toNat requested features
      (chunkStarts tokens.length chunkTokens.toNat) initial

/-- What `boundary_state_key` hashes. -/
def boundaryStateInput (prefixKey : Digest) : Bytes :=
  utf8 "spoolcache-hma-boundary/v1" ++ [0] ++ prefixKey.toBytes

/-- `boundary_state_key`, `token_files.py:51–62`, on a well-formed key. -/
def boundaryStateKey (prefixKey : Digest) : Digest := sha256 (boundaryStateInput prefixKey)

end SpoolCache.Prefix

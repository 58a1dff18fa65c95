import SpoolCache.Base.Except
import SpoolCache.Prefix.Universe

/-!
# Requests that can be hashed

`prefix.py:36–199`. Deriving keys fails only for a token outside the signed 64-bit range or for a
length that `struct` cannot pack. A request whose media was accepted and whose tokens and lengths
are in range has a key at every chunk boundary of its prompt.
-/

namespace SpoolCache.Prefix

open SpoolCache.Base

/-! ### Accepted media -/

/-- What the checks accept: features with names, in order, without overlap, inside the prompt. -/
def AcceptedFrom (tokenCount : Nat) : Nat → List MultimodalFeatureIdentity → Prop
  | _, [] => True
  | previousEnd, f :: fs =>
    (f.modality ≠ "" ∧ f.identifier ≠ "" ∧ 0 < f.length ∧ previousEnd ≤ f.offset ∧
      f.offset + f.length ≤ tokenCount) ∧ AcceptedFrom tokenCount (f.offset + f.length) fs

private theorem validateFeature_accepted {tokenCount previousEnd : Nat} {raw : Option RawFeature}
    {f : MultimodalFeatureIdentity} (h : validateFeature tokenCount previousEnd raw = .ok f) :
    f.modality ≠ "" ∧ f.identifier ≠ "" ∧ 0 < f.length ∧ previousEnd ≤ f.offset ∧
      f.offset + f.length ≤ tokenCount := by
  unfold validateFeature at h
  split at h
  · cases h
  · split at h
    · cases h
    · next modality hm =>
      split at h
      · cases h
      · next identifier hi =>
        split at h
        · next offset length ho hl =>
          split at h
          · cases h
          · next hneg =>
            split at h
            · cases h
            · next hprev =>
              split at h
              · cases h
              · next hend =>
                cases h
                rw [Option.filter_eq_some_iff] at hm hi
                refine ⟨of_decide_eq_true hm.2, of_decide_eq_true hi.2, ?_, ?_, ?_⟩
                · dsimp only
                  omega
                · dsimp only
                  omega
                · dsimp only
                  omega
        · cases h

/-- Features that validate are ordered, disjoint and within the tokens. -/
theorem validateFeaturesFrom_accepted {tokenCount previousEnd : Nat}
    {raw : List (Option RawFeature)} {fs : List MultimodalFeatureIdentity}
    (h : validateFeaturesFrom tokenCount previousEnd raw = .ok fs) :
    AcceptedFrom tokenCount previousEnd fs := by
  induction raw generalizing previousEnd fs with
  | nil =>
    cases h
    trivial
  | cons feature raw ih =>
    obtain ⟨f, hf, h⟩ := bind_ok h
    obtain ⟨rest, hrest, h⟩ := bind_ok h
    cases h
    exact ⟨validateFeature_accepted hf, ih hrest⟩

/-- Accepted features are accepted again. -/
theorem validateFeaturesFrom_toRaw {tokenCount previousEnd : Nat}
    {fs : List MultimodalFeatureIdentity} (h : AcceptedFrom tokenCount previousEnd fs) :
    validateFeaturesFrom tokenCount previousEnd (fs.map fun f ↦ some f.toRaw) = .ok fs := by
  induction fs generalizing previousEnd with
  | nil => rfl
  | cons f fs ih =>
    obtain ⟨⟨hm, hi, hlen, hprev, hend⟩, hrest⟩ := h
    have hf : validateFeature tokenCount previousEnd (some f.toRaw) = .ok f := by
      unfold validateFeature
      dsimp only [MultimodalFeatureIdentity.toRaw]
      simp only [Option.filter, hm, hi, ne_eq, not_false_eq_true, decide_true, if_true]
      rw [if_neg (by omega), if_neg (by omega), if_neg (by omega)]
      rfl
    rw [List.map_cons, validateFeaturesFrom, hf, ok_bind, ih hrest]
    rfl

private theorem AcceptedFrom.bounds {tokenCount previousEnd : Nat}
    {fs : List MultimodalFeatureIdentity} (h : AcceptedFrom tokenCount previousEnd fs) :
    ∀ f ∈ fs, f.offset + f.length ≤ tokenCount := by
  induction fs generalizing previousEnd with
  | nil =>
    intro f hf
    cases hf
  | cons g fs ih =>
    intro f hf
    rcases List.mem_cons.mp hf with rfl | hf
    · exact h.1.2.2.2.2
    · exact ih h.2 f hf

/-- Features without overlap are no more than the tokens. -/
theorem AcceptedFrom.length_le {tokenCount previousEnd : Nat}
    {fs : List MultimodalFeatureIdentity} (h : AcceptedFrom tokenCount previousEnd fs)
    (hprev : previousEnd ≤ tokenCount) : previousEnd + fs.length ≤ tokenCount := by
  induction fs generalizing previousEnd with
  | nil => exact hprev
  | cons f fs ih =>
    obtain ⟨⟨-, -, hlen, hle, hend⟩, hrest⟩ := h
    have := ih hrest hend
    rw [List.length_cons]
    omega

/-! ### Keys of every boundary -/

namespace PrefixRequest

/-- Tokens in the signed 64-bit range, and lengths that can be packed. -/
structure Hashable (r : PrefixRequest) : Prop where
  tokens : ∀ t ∈ r.tokens, IsInt64 t
  length : r.tokens.length < 2 ^ 64
  salt : (utf8 r.salt).length < 2 ^ 64
  texts : ∀ f ∈ r.features,
    (utf8 f.modality).length < 2 ^ 64 ∧ (utf8 f.identifier).length < 2 ^ 64

instance (r : PrefixRequest) : Decidable r.Hashable :=
  decidable_of_iff ((∀ t ∈ r.tokens, IsInt64 t) ∧ r.tokens.length < 2 ^ 64 ∧
      (utf8 r.salt).length < 2 ^ 64 ∧ ∀ f ∈ r.features,
        (utf8 f.modality).length < 2 ^ 64 ∧ (utf8 f.identifier).length < 2 ^ 64)
    ⟨fun ⟨a, b, c, d⟩ ↦ ⟨a, b, c, d⟩, fun h ↦ ⟨h.tokens, h.length, h.salt, h.texts⟩⟩

/-- The media of the request was accepted for its prompt. -/
def Accepted (r : PrefixRequest) : Prop := AcceptedFrom r.tokens.length 0 r.features

private theorem packCount_of_lt {n : Nat} (h : n < 2 ^ 64) : packCount n = .ok (le64 n) := if_pos h

variable {r : PrefixRequest}

private theorem exists_boundaryDigest (hr : r.Hashable) (ha : r.Accepted) (previous : Digest)
    (span : Nat) : ∃ digest, boundaryDigest previous r.features span = .ok digest := by
  have hlen := hr.length
  have hfeatures : ∀ f ∈ activeFeatures r.features span, ∃ b, encodeFeature f = .ok b := by
    intro f hf
    have hmem := List.mem_of_mem_filter hf
    have hbound := AcceptedFrom.bounds ha f hmem
    obtain ⟨hm, hi⟩ := hr.texts f hmem
    rw [encodeFeature, packCount_of_lt (by omega), packCount_of_lt (by omega), packCount_of_lt hm,
      packCount_of_lt hi]
    exact ⟨_, rfl⟩
  have hcount : (activeFeatures r.features span).length < 2 ^ 64 := by
    have hfilter : (activeFeatures r.features span).length ≤ r.features.length :=
      List.length_filter_le _ _
    have := AcceptedFrom.length_le ha (Nat.zero_le _)
    omega
  have hpayload : ∃ media, multimodalPayload r.features span = .ok media := by
    unfold multimodalPayload
    dsimp only
    split
    · exact ⟨_, rfl⟩
    · obtain ⟨encoded, he⟩ := (exists_mapM_ok_iff _ _).mpr hfeatures
      rw [packCount_of_lt hcount, he]
      exact ⟨_, rfl⟩
  obtain ⟨media, hmedia⟩ := hpayload
  rw [boundaryDigest, hmedia]
  exact ⟨_, rfl⟩

private theorem exists_prefixLoop (hr : r.Hashable) (ha : r.Accepted) (chunk : Nat)
    (requested starts : List Nat) (previous : Digest) :
    ∃ out, prefixLoop r.tokens chunk requested r.features starts previous = .ok out := by
  induction starts generalizing previous with
  | nil => exact ⟨_, rfl⟩
  | cons start starts ih =>
    rw [prefixLoop]
    dsimp only
    split
    · exact ⟨_, rfl⟩
    · have hchunk : ((r.tokens.drop start).take chunk).length < 2 ^ 64 := by
        have := hr.length
        rw [List.length_take, List.length_drop]
        omega
      rw [packCount_of_lt hchunk, ok_bind]
      split
      · obtain ⟨digest, hd⟩ := exists_boundaryDigest hr ha
          (sha256 (chunkInput previous ((r.tokens.drop start).take chunk))) (start + chunk)
        obtain ⟨rest, hrest⟩ := ih (sha256 (chunkInput previous ((r.tokens.drop start).take chunk)))
        rw [hd, ok_bind, hrest]
        exact ⟨_, rfl⟩
      · exact ih _

private theorem validateTokens_of_isInt64 {ts : List Int} (h : ∀ t ∈ ts, IsInt64 t) :
    (ts.map some).mapM validateToken = .ok ts := by
  obtain ⟨out, hout⟩ := (exists_mapM_ok_iff validateToken (ts.map some)).mpr (by
    intro token htoken
    obtain ⟨t, ht, rfl⟩ := List.mem_map.mp htoken
    exact ⟨t, if_pos (h t ht)⟩)
  rw [hout, (validateTokens_ok hout).1]

private theorem exists_requestedBoundaries {chunk n count : Nat} (hpos : 0 < chunk)
    (hn : n * chunk ≤ count) :
    ∃ requested, requestedBoundaries chunk count (some (chunkBoundaries chunk (n * chunk))) =
      .ok requested := by
  unfold requestedBoundaries
  apply (exists_mapM_ok_iff _ _).mpr
  intro b hb
  rw [chunkBoundaries, Nat.mul_div_cancel _ hpos, List.mem_map] at hb
  obtain ⟨i, hi, rfl⟩ := hb
  have hle : (i + 1) * chunk ≤ n * chunk :=
    Nat.mul_le_mul_right _ (List.mem_range.mp hi)
  have hmod : (((i + 1) * chunk : Nat) : Int) % chunk = 0 := by
    rw [Int.natCast_mul, Int.mul_emod_left]
  have hpos' : 0 < (i + 1) * chunk := Nat.mul_pos (Nat.succ_pos i) hpos
  exact ⟨_, if_neg (by omega)⟩

/-- A hashable request with accepted media has the keys of every chunk boundary of its prompt. -/
theorem keyed_of_hashable (hr : r.Hashable) (ha : r.Accepted) {chunk n : Nat} (hpos : 0 < chunk)
    (hn : n * chunk ≤ r.tokens.length) : r.Keyed chunk n := by
  obtain ⟨requested, hreq⟩ := exists_requestedBoundaries hpos hn
  have hfeatures : validateMultimodalFeatures (r.features.map fun f ↦ some f.toRaw)
      r.tokens.length = .ok r.features := validateFeaturesFrom_toRaw ha
  obtain ⟨out, hout⟩ := exists_prefixLoop hr ha chunk requested
    (chunkStarts r.tokens.length chunk) (sha256 (initialInput r.deployment r.salt))
  have hdigests : r.digests chunk (some (chunkBoundaries chunk (n * chunk))) = .ok out := by
    unfold digests prefixDigests
    rw [if_neg (by omega), validateTokens_of_isInt64 hr.tokens, ok_bind, Int.toNat_natCast, hreq,
      ok_bind, hfeatures, ok_bind, initialDigest, packCount_of_lt hr.salt]
    exact hout
  exact (keyed_of_digests hdigests).1

end PrefixRequest

end SpoolCache.Prefix

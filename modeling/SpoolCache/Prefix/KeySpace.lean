import SpoolCache.Prefix.Digests

/-!
# Soundness of the key space

A digest at a boundary determines everything that influences the cache up to it, as long as
SHA-256 has no collision among the inputs that were hashed for the two requests. The argument
is that every two encodings that are hashed are either equal or different as byte strings: equal
widths in front cancel, texts carry their lengths, and a media suffix never starts like a chunk
of at most `2 ^ 62` tokens.
-/

namespace SpoolCache.Prefix

open SpoolCache.Base

/-! ### Encodings are unambiguous -/

/-- The domain of the key space has 27 bytes. -/
theorem length_domain : domain.length = 27 := by decide +kernel

private theorem length_multimodalDomain : multimodalDomain.length = 32 := by decide +kernel

/-- The media domain, read as a token count, is above `2 ^ 62`. -/
theorem take_multimodalDomain : multimodalDomain.take 8 = le64 0x6361636c6f6f7073 := by
  decide +kernel

private theorem packCount_ok {n : Nat} {b : Bytes} (h : packCount n = .ok b) : n < 2 ^ 64 ∧ b =
      le64 n := by
  unfold packCount at h
  split at h
  · next hn =>
    cases h
    exact ⟨hn, rfl⟩
  · cases h

private theorem initialInput_inj {d d' : Digest} {s s' : String} (hs : (utf8 s).length < 2 ^ 64)
    (hs' : (utf8 s').length < 2 ^ 64) (h : initialInput d s = initialInput d' s') :
    d = d' ∧ s = s' := by
  unfold initialInput at h
  simp only [List.append_assoc] at h
  have h₁ := List.append_cancel_left h
  obtain ⟨hd, h₂⟩ := append_inj_of_length (by rw [Digest.length_toBytes, Digest.length_toBytes]) h₁
  have h₃ : prefixed s ++ [] = prefixed s' ++ [] := by
    rw [List.append_nil, List.append_nil]
    exact h₂
  exact ⟨Digest.toBytes_inj hd, (prefixed_separated hs hs' h₃).1⟩

private theorem chunkInput_inj {d d' : Digest} {l l' : List Int} (hl : l.length = l'.length)
    (hi : ∀ t ∈ l, IsInt64 t) (hi' : ∀ t ∈ l', IsInt64 t)
    (h : chunkInput d l = chunkInput d' l') : d = d' ∧ l = l' := by
  unfold chunkInput at h
  obtain ⟨hd, h₁⟩ := append_inj_of_length (by rw [Digest.length_toBytes, Digest.length_toBytes]) h
  rw [hl] at h₁
  have h₂ := List.append_cancel_left h₁
  refine ⟨Digest.toBytes_inj hd, flatMap_inj_of_length leInt64 8 length_leInt64 ?_ hl h₂⟩
  intro a ha b hb hab
  exact leInt64_inj (hi a ha) (hi' b hb) hab

private theorem length_chunkInput (d : Digest) (l : List Int) :
    (chunkInput d l).length = 40 + 8 * l.length := by
  have hf : (l.flatMap leInt64).length = 8 * l.length := by
    induction l with
    | nil => rfl
    | cons t l ih =>
      rw [List.flatMap_cons, List.length_append, length_leInt64, ih, List.length_cons]
      omega
  rw [chunkInput, List.length_append, List.length_append, Digest.length_toBytes, length_le64, hf]
  omega

private theorem length_boundaryStateInput (d : Digest) : (boundaryStateInput d).length = 59 := by
  have hd : (utf8 "spoolcache-hma-boundary/v1").length = 26 := by decide +kernel
  rw [boundaryStateInput, List.length_append, List.length_append, hd, Digest.length_toBytes]
  rfl

/-- The input of a state key determines the data key. -/
theorem boundaryStateInput_inj {d d' : Digest} (h : boundaryStateInput d = boundaryStateInput d') :
    d = d' := Digest.toBytes_inj (List.append_cancel_left h)

/-! ### Media payloads -/

/-- Bytes of one feature. -/
def featureBytes (f : MultimodalFeatureIdentity) : Bytes :=
  le64 f.offset ++ le64 f.length ++ prefixed f.modality ++ prefixed f.identifier

/-- The sizes of a feature that packing accepts. -/
structure Packable (f : MultimodalFeatureIdentity) : Prop where
  offset : f.offset < 2 ^ 64
  length : f.length < 2 ^ 64
  modality : (utf8 f.modality).length < 2 ^ 64
  identifier : (utf8 f.identifier).length < 2 ^ 64

private theorem encodeFeature_ok {f : MultimodalFeatureIdentity} {b : Bytes}
    (h : encodeFeature f = .ok b) : Packable f ∧ b = featureBytes f := by
  unfold encodeFeature at h
  cases ho : packCount f.offset with
  | error e => simp [ho, bind, Except.bind] at h
  | ok o =>
    cases hl : packCount f.length with
    | error e => simp [ho, hl, bind, Except.bind] at h
    | ok l =>
      cases hm : packCount (utf8 f.modality).length with
      | error e => simp [ho, hl, hm, bind, Except.bind] at h
      | ok m =>
        cases hi : packCount (utf8 f.identifier).length with
        | error e => simp [ho, hl, hm, hi, bind, Except.bind] at h
        | ok i =>
          simp only [ho, hl, hm, hi, bind, Except.bind, pure, Except.pure, Except.ok.injEq] at h
          obtain ⟨hob, rfl⟩ := packCount_ok ho
          obtain ⟨hlb, rfl⟩ := packCount_ok hl
          obtain ⟨hmb, rfl⟩ := packCount_ok hm
          obtain ⟨hib, rfl⟩ := packCount_ok hi
          refine ⟨⟨hob, hlb, hmb, hib⟩, ?_⟩
          rw [← h, featureBytes, prefixed, prefixed]
          simp only [List.append_assoc]

private theorem mapM_encodeFeature_ok {fs : List MultimodalFeatureIdentity} {bs : List Bytes}
    (h : fs.mapM encodeFeature = .ok bs) :
    (∀ f ∈ fs, Packable f) ∧ bs.flatten = fs.flatMap featureBytes := by
  induction fs generalizing bs with
  | nil =>
    cases h
    exact ⟨fun f hf ↦ (by cases hf), rfl⟩
  | cons f fs ih =>
    rw [List.mapM_cons] at h
    cases hf : encodeFeature f with
    | error e =>
      rw [hf] at h
      cases h
    | ok b =>
      cases hr : fs.mapM encodeFeature with
      | error e =>
        rw [hf, hr] at h
        cases h
      | ok bs' =>
        rw [hf, hr] at h
        cases h
        obtain ⟨hp, rfl⟩ := encodeFeature_ok hf
        obtain ⟨hps, hflat⟩ := ih hr
        refine ⟨?_, ?_⟩
        · intro g hg
          rcases List.mem_cons.mp hg with rfl | hg
          · exact hp
          · exact hps g hg
        · rw [List.flatten_cons, List.flatMap_cons, hflat]

private theorem featureBytes_separated {f g : MultimodalFeatureIdentity} (hf : Packable f)
    (hg : Packable g) {x y : Bytes} (h : featureBytes f ++ x = featureBytes g ++ y) :
    f = g ∧ x = y := by
  unfold featureBytes at h
  simp only [List.append_assoc] at h
  obtain ⟨ho, h₁⟩ := append_inj_of_length (by rw [length_le64, length_le64]) h
  obtain ⟨hl, h₂⟩ := append_inj_of_length (by rw [length_le64, length_le64]) h₁
  obtain ⟨hm, h₃⟩ := prefixed_separated hf.modality hg.modality h₂
  obtain ⟨hi, h₄⟩ := prefixed_separated hf.identifier hg.identifier h₃
  have ho' := le64_inj hf.offset hg.offset ho
  have hl' := le64_inj hf.length hg.length hl
  cases f
  cases g
  cases hm
  cases hi
  cases ho'
  cases hl'
  exact ⟨rfl, h₄⟩

/-- A payload is empty without active features, and starts with its domain otherwise. -/
theorem multimodalPayload_ok {fs : List MultimodalFeatureIdentity} {s : Nat} {b : Bytes}
    (h : multimodalPayload fs s = .ok b) :
    (activeFeatures fs s = [] ∧ b = []) ∨
      (activeFeatures fs s ≠ [] ∧ (activeFeatures fs s).length < 2 ^ 64 ∧
        (∀ f ∈ activeFeatures fs s, Packable f) ∧
        b = multimodalDomain ++ le64 (activeFeatures fs s).length ++
          (activeFeatures fs s).flatMap featureBytes) := by
  unfold multimodalPayload at h
  dsimp only at h
  split at h
  · next hn =>
    cases h
    exact .inl ⟨hn, rfl⟩
  · next hn =>
    cases hc : packCount (activeFeatures fs s).length with
    | error e => simp [hc, bind, Except.bind] at h
    | ok c =>
      cases hm : (activeFeatures fs s).mapM encodeFeature with
      | error e => simp [hc, hm, bind, Except.bind] at h
      | ok bs =>
        simp only [hc, hm, bind, Except.bind, pure, Except.pure, Except.ok.injEq] at h
        obtain ⟨hlt, rfl⟩ := packCount_ok hc
        obtain ⟨hp, hflat⟩ := mapM_encodeFeature_ok hm
        refine .inr ⟨hn, hlt, hp, ?_⟩
        rw [← h, hflat]

/-- The payload determines the active features. -/
theorem multimodalPayload_inj {fs gs : List MultimodalFeatureIdentity} {s : Nat} {b : Bytes}
    (h : multimodalPayload fs s = .ok b) (h' : multimodalPayload gs s = .ok b) :
    activeFeatures fs s = activeFeatures gs s := by
  have hne : ∀ x y : Bytes, multimodalDomain ++ x ++ y ≠ [] := by
    intro x y hz
    have hlen := congrArg List.length hz
    rw [List.length_append, List.length_append, length_multimodalDomain, List.length_nil] at hlen
    omega
  rcases multimodalPayload_ok h with ⟨hf, hb⟩ | ⟨-, hlt, hp, hb⟩
  · rcases multimodalPayload_ok h' with ⟨hg, -⟩ | ⟨-, -, -, hb'⟩
    · rw [hf, hg]
    · exact absurd (hb'.symm.trans hb) (hne _ _)
  · rcases multimodalPayload_ok h' with ⟨-, hb'⟩ | ⟨-, hlt', hp', hb'⟩
    · exact absurd (hb.symm.trans hb') (hne _ _)
    · have he := hb.symm.trans hb'
      rw [List.append_assoc, List.append_assoc] at he
      obtain ⟨hc, hrest⟩ := append_inj_of_length (by rw [length_le64, length_le64])
        (List.append_cancel_left he)
      exact flatMap_inj_of_separated featureBytes
        (fun a ha b hb x y hxy ↦ featureBytes_separated (hp a ha) (hp' b hb) hxy)
        (le64_inj hlt hlt' hc) hrest

/-! ### Requests and what is hashed for them -/

/-- A request whose identity fields have valid types: deployment digest, salt, tokens, media. -/
structure PrefixRequest where
  deployment : Digest
  salt : String
  tokens : List Int
  features : List MultimodalFeatureIdentity
  deriving DecidableEq

namespace PrefixRequest

/-- `prefix_digests` on the request, for any requested boundaries. -/
def digests (r : PrefixRequest) (chunkTokens : Nat) (boundaries : Option (List PyInt)) :
    Except PyError (List PrefixDigest) :=
  prefixDigests (r.tokens.map some) (some r.deployment) r.salt chunkTokens boundaries
    (r.features.map fun f ↦ some f.toRaw)

/-- The tokens of chunk `n`. -/
def chunkAt (r : PrefixRequest) (chunkTokens n : Nat) : List Int :=
  (r.tokens.drop (n * chunkTokens)).take chunkTokens

/-- The running digest after `n` chunks. -/
def chain (r : PrefixRequest) (chunkTokens : Nat) : Nat → Digest
  | 0 => sha256 (initialInput r.deployment r.salt)
  | n + 1 => sha256 (chunkInput (r.chain chunkTokens n) (r.chunkAt chunkTokens n))

/-- What is hashed when media is mixed in at a span. -/
def mediaInputs (r : PrefixRequest) (chunkTokens span : Nat) : List Bytes :=
  match multimodalPayload r.features span with
  | .ok [] => []
  | .ok media => [(r.chain chunkTokens (span / chunkTokens)).toBytes ++ media]
  | .error _ => []

/-- Everything that is hashed for the digest at a span. -/
def hashInputs (r : PrefixRequest) (chunkTokens span : Nat) : List Bytes :=
  initialInput r.deployment r.salt ::
    ((List.range (span / chunkTokens)).map fun n ↦
      chunkInput (r.chain chunkTokens n) (r.chunkAt chunkTokens n)) ++
    r.mediaInputs chunkTokens span

/-- Equality of everything that matters up to a span. -/
def AgreeTo (a b : PrefixRequest) (span : Nat) : Prop :=
  a.deployment = b.deployment ∧ a.salt = b.salt ∧ a.tokens.take span = b.tokens.take span ∧
    activeFeatures a.features span = activeFeatures b.features span

/-- Requests that agree to a span agree to a shorter one. -/
theorem AgreeTo.mono {a b : PrefixRequest} {s t : Nat} (h : AgreeTo a b s) (hts : t ≤ s) :
    AgreeTo a b t := by
  obtain ⟨hd, hs, ht, hf⟩ := h
  have hfilter : ∀ fs, activeFeatures fs t = activeFeatures (activeFeatures fs s) t := by
    intro fs
    unfold activeFeatures
    rw [List.filter_filter]
    apply List.filter_congr
    intro f _
    by_cases hlt : f.offset < t
    · have hlt' : f.offset < s := by omega
      simp [hlt, hlt']
    · simp [hlt]
  refine ⟨hd, hs, ?_, ?_⟩
  · have he := congrArg (List.take t) ht
    rwa [List.take_take, List.take_take, min_eq_left hts] at he
  · rw [hfilter, hfilter b.features, hf]

/-! ### The chain -/

/-- The chain depends on the deployment, the salt and the tokens that it covers. -/
theorem chain_congr {a b : PrefixRequest} {chunk n : Nat}
    (h : a.deployment = b.deployment ∧ a.salt = b.salt ∧
      a.tokens.take (n * chunk) = b.tokens.take (n * chunk)) :
    a.chain chunk n = b.chain chunk n := by
  obtain ⟨hd, hs, ht⟩ := h
  induction n with
  | zero => rw [chain, chain, hd, hs]
  | succ n ih =>
    have hle : n * chunk ≤ (n + 1) * chunk := Nat.mul_le_mul_right _ (Nat.le_succ n)
    have hprev : a.tokens.take (n * chunk) = b.tokens.take (n * chunk) := by
      have he := congrArg (List.take (n * chunk)) ht
      rwa [List.take_take, List.take_take, min_eq_left hle] at he
    have hchunk : a.chunkAt chunk n = b.chunkAt chunk n := by
      have he := congrArg (List.drop (n * chunk)) ht
      rw [List.drop_take, List.drop_take] at he
      have hsub : (n + 1) * chunk - n * chunk = chunk := by
        rw [Nat.succ_mul]
        omega
      rw [hsub] at he
      exact he
    rw [chain, chain, ih hprev, hchunk]

/-- The input of every chunk within the span is hashed. -/
theorem chunkInput_mem_hashInputs (r : PrefixRequest) {chunk span n : Nat} (hc : 0 < chunk)
    (h : (n + 1) * chunk ≤ span) :
    chunkInput (r.chain chunk n) (r.chunkAt chunk n) ∈ r.hashInputs chunk span := by
  have hn : n < span / chunk := by
    rw [Nat.lt_iff_add_one_le, Nat.le_div_iff_mul_le hc]
    exact h
  exact List.mem_append_left _ (List.mem_cons_of_mem _
    (List.mem_map.mpr ⟨n, List.mem_range.mpr hn, rfl⟩))

/-- The input with deployment and salt is hashed. -/
theorem initialInput_mem_hashInputs (r : PrefixRequest) (chunk span : Nat) :
    initialInput r.deployment r.salt ∈ r.hashInputs chunk span :=
  List.mem_append_left _ List.mem_cons_self

/-- A chunk within the tokens is full. -/
theorem length_chunkAt (r : PrefixRequest) {chunk n : Nat}
    (h : (n + 1) * chunk ≤ r.tokens.length) : (r.chunkAt chunk n).length = chunk := by
  rw [chunkAt, List.length_take, List.length_drop]
  rw [Nat.succ_mul] at h
  omega

/-- What a request needs for its digests to exist. -/
structure Valid (r : PrefixRequest) : Prop where
  tokens : ∀ t ∈ r.tokens, IsInt64 t
  salt : (utf8 r.salt).length < 2 ^ 64

/-- Equal running digests after `n` chunks mean equal requests up to there. -/
theorem chain_inj {a b : PrefixRequest} (ha : a.Valid) (hb : b.Valid) {chunk span n : Nat}
    (hc : 0 < chunk) (hn : n * chunk ≤ span) (hal : span ≤ a.tokens.length)
    (hbl : span ≤ b.tokens.length)
    (hinj : NoCollisions (a.hashInputs chunk span ++ b.hashInputs chunk span))
    (h : a.chain chunk n = b.chain chunk n) :
    a.deployment = b.deployment ∧ a.salt = b.salt ∧
      a.tokens.take (n * chunk) = b.tokens.take (n * chunk) := by
  induction n with
  | zero =>
    have he := hinj _ (List.mem_append_left _ (a.initialInput_mem_hashInputs chunk span)) _
      (List.mem_append_right _ (b.initialInput_mem_hashInputs chunk span)) h
    obtain ⟨hd, hs⟩ := initialInput_inj ha.salt hb.salt he
    exact ⟨hd, hs, by simp⟩
  | succ n ih =>
    have he := hinj _ (List.mem_append_left _ (a.chunkInput_mem_hashInputs hc hn)) _
      (List.mem_append_right _ (b.chunkInput_mem_hashInputs hc hn)) h
    have hlen : (a.chunkAt chunk n).length = (b.chunkAt chunk n).length := by
      rw [a.length_chunkAt (hn.trans hal), b.length_chunkAt (hn.trans hbl)]
    obtain ⟨hprev, hchunk⟩ := chunkInput_inj hlen
      (fun t ht ↦ ha.tokens t (List.mem_of_mem_drop (List.mem_of_mem_take ht)))
      (fun t ht ↦ hb.tokens t (List.mem_of_mem_drop (List.mem_of_mem_take ht))) he
    have hle : n * chunk ≤ span := le_trans (Nat.mul_le_mul_right _ (Nat.le_succ n)) hn
    obtain ⟨hd, hs, ht⟩ := ih hle hprev
    refine ⟨hd, hs, ?_⟩
    rw [Nat.succ_mul, List.take_add, List.take_add, ht]
    exact congrArg _ hchunk

/-! ### Digests that are returned -/

/-- Tokens that validate are 64-bit integers, and are kept as they are. -/
theorem validateTokens_ok {ts ts' : List Int} (h : (ts.map some).mapM validateToken = .ok ts') :
    ts' = ts ∧ ∀ t ∈ ts, IsInt64 t := by
  induction ts generalizing ts' with
  | nil =>
    cases h
    exact ⟨rfl, fun t ht ↦ (by cases ht)⟩
  | cons t ts ih =>
    rw [List.map_cons, List.mapM_cons] at h
    by_cases hr : IsInt64 t
    · have ht : validateToken (some t) = .ok t := if_pos hr
      cases hm : (ts.map some).mapM validateToken with
      | error e =>
        rw [ht, hm] at h
        cases h
      | ok rest =>
        rw [ht, hm] at h
        cases h
        obtain ⟨rfl, hts⟩ := ih hm
        refine ⟨rfl, ?_⟩
        intro x hx
        rcases List.mem_cons.mp hx with rfl | hx
        · exact hr
        · exact hts x hx
    · have ht : validateToken (some t) =
          .error (.valueError "token ID is outside signed 64-bit range") := if_neg hr
      rw [ht] at h
      cases h

private theorem validateFeature_toRaw {tokenCount previousEnd : Nat}
    {f g : MultimodalFeatureIdentity}
    (h : validateFeature tokenCount previousEnd (some f.toRaw) = .ok g) : g = f := by
  unfold validateFeature at h
  dsimp only [MultimodalFeatureIdentity.toRaw] at h
  by_cases hm : f.modality = ""
  · simp [hm, Option.filter] at h
  · by_cases hi : f.identifier = ""
    · simp [hm, hi, Option.filter] at h
    · simp only [Option.filter, hm, hi, ne_eq, not_false_eq_true, decide_true, if_true] at h
      split at h
      · cases h
      · split at h
        · cases h
        · split at h
          · cases h
          · cases h
            rfl

private theorem validateFeatures_toRaw {tokenCount previousEnd : Nat}
    {fs gs : List MultimodalFeatureIdentity}
    (h : validateFeaturesFrom tokenCount previousEnd (fs.map fun f ↦ some f.toRaw) = .ok gs) :
    gs = fs := by
  induction fs generalizing previousEnd gs with
  | nil =>
    cases h
    rfl
  | cons f fs ih =>
    simp only [List.map_cons, validateFeaturesFrom] at h
    cases hf : validateFeature tokenCount previousEnd (some f.toRaw) with
    | error e => simp [hf, bind, Except.bind] at h
    | ok g =>
      cases hr : validateFeaturesFrom tokenCount (g.offset + g.length)
          (fs.map fun f ↦ some f.toRaw) with
      | error e => simp [hf, hr, bind, Except.bind] at h
      | ok rest =>
        simp only [hf, hr, bind, Except.bind, pure, Except.pure, Except.ok.injEq] at h
        rw [← h, validateFeature_toRaw hf, ih hr]

/-- Each digest the loop returns is the boundary digest of the running digest there. -/
theorem prefixLoop_ok {r : PrefixRequest} {chunk : Nat} (hpos : 0 < chunk) {requested : List Nat}
    {m a : Nat} {out : List PrefixDigest}
    (h : prefixLoop r.tokens chunk requested r.features
      ((List.range' a m).map fun i ↦ i * chunk) (r.chain chunk a) = .ok out)
    {p : PrefixDigest} (hp : p ∈ out) :
    ∃ n, p.spanTokens = (n + 1) * chunk ∧ p.spanTokens ≤ r.tokens.length ∧
      boundaryDigest (r.chain chunk (n + 1)) r.features p.spanTokens = .ok p.digest := by
  -- the running digest is the chain at the current start, so the induction moves along it
  induction m generalizing a out with
  | zero =>
    cases h
    cases hp
  | succ m ih =>
    rw [List.range'_succ, List.map_cons, prefixLoop] at h
    dsimp only at h
    split at h
    · cases h
      cases hp
    · next hlen =>
      have hchain : sha256 (chunkInput (r.chain chunk a) ((r.tokens.drop (a * chunk)).take chunk)) =
          r.chain chunk (a + 1) := rfl
      rw [hchain] at h
      cases hc : packCount ((r.tokens.drop (a * chunk)).take chunk).length with
      | error e =>
        rw [hc] at h
        cases h
      | ok count =>
        simp only [hc, bind, Except.bind, pure, Except.pure] at h
        split at h
        · cases hd : boundaryDigest (r.chain chunk (a + 1)) r.features (a * chunk + chunk) with
          | error e =>
            rw [hd] at h
            cases h
          | ok digest =>
            cases hr : prefixLoop r.tokens chunk requested r.features
                ((List.range' (a + 1) m).map fun i ↦ i * chunk) (r.chain chunk (a + 1)) with
            | error e =>
              rw [hd, hr] at h
              cases h
            | ok rest =>
              rw [hd, hr] at h
              cases h
              rcases List.mem_cons.mp hp with rfl | hp
              · refine ⟨a, (Nat.succ_mul a chunk).symm, ?_, hd⟩
                rw [List.length_take, List.length_drop] at hlen
                dsimp only
                omega
              · exact ih hr hp
        · exact ih h hp

/-- What a successful call went through: a valid request, checked boundaries, and the loop over
the chunk starts. -/
theorem digests_inv {r : PrefixRequest} {chunk : Nat} {boundaries : Option (List PyInt)}
    {out : List PrefixDigest} (h : r.digests chunk boundaries = .ok out) :
    0 < chunk ∧ r.Valid ∧
      ∃ requested, requestedBoundaries chunk r.tokens.length boundaries = .ok requested ∧
        prefixLoop r.tokens chunk requested r.features
          ((List.range' 0 ((r.tokens.length + chunk - 1) / chunk)).map fun i ↦ i * chunk)
          (r.chain chunk 0) = .ok out := by
  unfold digests prefixDigests at h
  split at h
  · cases h
  · next hc =>
    simp only [Int.toNat_natCast] at h
    cases ht : (r.tokens.map some).mapM validateToken with
    | error e => simp [ht, bind, Except.bind] at h
    | ok ts =>
      obtain ⟨rfl, hint⟩ := validateTokens_ok ht
      cases hb : requestedBoundaries chunk r.tokens.length boundaries with
      | error e => simp [ht, hb, bind, Except.bind] at h
      | ok requested =>
        cases hf : validateMultimodalFeatures (r.features.map fun f ↦ some f.toRaw)
            r.tokens.length with
        | error e => simp [ht, hb, hf, bind, Except.bind] at h
        | ok fs =>
          have hfs := validateFeatures_toRaw hf
          subst hfs
          cases hs : packCount (utf8 r.salt).length with
          | error e => simp [ht, hb, hf, initialDigest, hs, bind, Except.bind] at h
          | ok b =>
            simp only [ht, hb, hf, initialDigest, hs, bind, Except.bind, pure,
              Except.pure] at h
            rw [chunkStarts, List.range_eq_range'] at h
            exact ⟨by omega, ⟨hint, (packCount_ok hs).1⟩, requested, rfl, h⟩

/-- Each returned digest is the boundary digest of its span, and the request is valid. -/
theorem digests_ok {r : PrefixRequest} {chunk : Nat} {boundaries : Option (List PyInt)}
    {out : List PrefixDigest} (h : r.digests chunk boundaries = .ok out) {p : PrefixDigest}
    (hp : p ∈ out) :
    0 < chunk ∧ r.Valid ∧ ∃ n, p.spanTokens = (n + 1) * chunk ∧
      p.spanTokens ≤ r.tokens.length ∧
      boundaryDigest (r.chain chunk (n + 1)) r.features p.spanTokens = .ok p.digest := by
  obtain ⟨hpos, hv, requested, -, hloop⟩ := digests_inv h
  exact ⟨hpos, hv, prefixLoop_ok hpos hloop hp⟩

/-! ### Boundary digests -/

/-- A boundary digest is the running digest, or the hash of it with the media below the span. -/
theorem boundaryDigest_ok {d k : Digest} {fs : List MultimodalFeatureIdentity} {s : Nat}
    (h : boundaryDigest d fs s = .ok k) :
    (multimodalPayload fs s = .ok [] ∧ k = d) ∨
      ∃ media, media ≠ [] ∧ multimodalPayload fs s = .ok media ∧
        k = sha256 (d.toBytes ++ media) := by
  unfold boundaryDigest at h
  cases hm : multimodalPayload fs s with
  | error e =>
    rw [hm] at h
    cases h
  | ok media =>
    simp only [hm, bind, Except.bind, pure, Except.pure, Except.ok.injEq] at h
    by_cases hn : media = []
    · rw [if_pos hn] at h
      rw [hn]
      exact .inl ⟨rfl, h.symm⟩
    · rw [if_neg hn] at h
      exact .inr ⟨media, hn, rfl, h.symm⟩

/-- The input with the media before a boundary is hashed. -/
theorem media_mem_hashInputs {r : PrefixRequest} {chunk n : Nat} (hc : 0 < chunk) {media : Bytes}
    (hne : media ≠ []) (h : multimodalPayload r.features (n * chunk) = .ok media) :
    (r.chain chunk n).toBytes ++ media ∈ r.hashInputs chunk (n * chunk) := by
  apply List.mem_append_right
  rw [mediaInputs, h, Nat.mul_div_cancel _ hc]
  cases media with
  | nil => exact absurd rfl hne
  | cons x media => exact List.mem_singleton.mpr rfl

/-- A media input never is the input of a round of the chain. -/
theorem media_ne_chunkInput {d d' : Digest} {fs : List MultimodalFeatureIdentity} {s : Nat}
    {media : Bytes} (hne : media ≠ []) (h : multimodalPayload fs s = .ok media) {l : List Int}
    (hl : l.length < 2 ^ 62) : d.toBytes ++ media ≠ chunkInput d' l := by
  intro he
  rcases multimodalPayload_ok h with ⟨-, hb⟩ | ⟨-, -, -, hb⟩
  · exact hne hb
  · rw [hb, chunkInput] at he
    have h₁ := (append_inj_of_length
      (by rw [Digest.length_toBytes, Digest.length_toBytes]) he).2
    have h₂ := congrArg (List.take 8) h₁
    rw [List.append_assoc, List.take_append_of_le_length (by rw [length_multimodalDomain]; omega),
      take_multimodalDomain, List.take_append_of_le_length (by rw [length_le64]),
      List.take_of_length_le (by rw [length_le64])] at h₂
    have h₃ := le64_inj (by omega) (by omega) h₂
    omega

/-- Equal boundary digests mean equal requests up to the boundary. -/
theorem boundaryDigest_inj {a b : PrefixRequest} (ha : a.Valid) (hb : b.Valid) {chunk n : Nat}
    (hpos : 0 < chunk) (hmax : chunk < 2 ^ 62) (hal : (n + 1) * chunk ≤ a.tokens.length)
    (hbl : (n + 1) * chunk ≤ b.tokens.length)
    (hinj : NoCollisions (a.hashInputs chunk ((n + 1) * chunk) ++
      b.hashInputs chunk ((n + 1) * chunk))) {k : Digest}
    (h₁ : boundaryDigest (a.chain chunk (n + 1)) a.features ((n + 1) * chunk) = .ok k)
    (h₂ : boundaryDigest (b.chain chunk (n + 1)) b.features ((n + 1) * chunk) = .ok k) :
    AgreeTo a b ((n + 1) * chunk) := by
  have hchain : a.chain chunk (n + 1) = b.chain chunk (n + 1) →
      activeFeatures a.features ((n + 1) * chunk) = activeFeatures b.features ((n + 1) * chunk) →
      AgreeTo a b ((n + 1) * chunk) := by
    intro hk hf
    obtain ⟨hd, hs, ht⟩ := chain_inj ha hb hpos le_rfl hal hbl hinj hk
    exact ⟨hd, hs, ht, hf⟩
  have hmixed : ∀ {x y : PrefixRequest} {media : Bytes}, (n + 1) * chunk ≤ y.tokens.length →
      media ≠ [] → multimodalPayload x.features ((n + 1) * chunk) = .ok media →
      (x.chain chunk (n + 1)).toBytes ++ media ≠ chunkInput (y.chain chunk n) (y.chunkAt chunk n) := by
    intro x y media hyl hne hm
    exact media_ne_chunkInput hne hm (by rw [y.length_chunkAt hyl]; exact hmax)
  rcases boundaryDigest_ok h₁ with ⟨hm₁, hk₁⟩ | ⟨m₁, hne₁, hm₁, hk₁⟩
  · rcases boundaryDigest_ok h₂ with ⟨hm₂, hk₂⟩ | ⟨m₂, hne₂, hm₂, hk₂⟩
    · exact hchain (hk₁.symm.trans hk₂) (multimodalPayload_inj hm₁ hm₂)
    · have he := hinj _ (List.mem_append_right _ (media_mem_hashInputs hpos hne₂ hm₂)) _
        (List.mem_append_left _ (a.chunkInput_mem_hashInputs hpos le_rfl)) (hk₂.symm.trans hk₁)
      exact absurd he (hmixed hal hne₂ hm₂)
  · rcases boundaryDigest_ok h₂ with ⟨hm₂, hk₂⟩ | ⟨m₂, hne₂, hm₂, hk₂⟩
    · have he := hinj _ (List.mem_append_left _ (media_mem_hashInputs hpos hne₁ hm₁)) _
        (List.mem_append_right _ (b.chunkInput_mem_hashInputs hpos le_rfl)) (hk₁.symm.trans hk₂)
      exact absurd he (hmixed hbl hne₁ hm₁)
    · have he := hinj _ (List.mem_append_left _ (media_mem_hashInputs hpos hne₁ hm₁)) _
        (List.mem_append_right _ (media_mem_hashInputs hpos hne₂ hm₂)) (hk₁.symm.trans hk₂)
      obtain ⟨hd, hm⟩ := append_inj_of_length
        (by rw [Digest.length_toBytes, Digest.length_toBytes]) he
      rw [← hm] at hm₂
      exact hchain (Digest.toBytes_inj hd) (multimodalPayload_inj hm₁ hm₂)

/-- The media payload depends on the active features only. -/
theorem multimodalPayload_congr {fs gs : List MultimodalFeatureIdentity} {s : Nat}
    (h : activeFeatures fs s = activeFeatures gs s) :
    multimodalPayload fs s = multimodalPayload gs s := by
  unfold multimodalPayload
  rw [h]

/-- Requests that agree up to a boundary have one digest there, whatever else they ask for. -/
theorem digest_congr {a b : PrefixRequest} {chunk : Nat} {ba bb : Option (List PyInt)}
    {outA outB : List PrefixDigest} (hA : a.digests chunk ba = .ok outA)
    (hB : b.digests chunk bb = .ok outB) {s : Nat} {k₁ k₂ : Digest} (h₁ : ⟨s, k₁⟩ ∈ outA)
    (h₂ : ⟨s, k₂⟩ ∈ outB) (h : AgreeTo a b s) : k₁ = k₂ := by
  obtain ⟨hpos, -, n, hs, -, hk₁⟩ := digests_ok hA h₁
  obtain ⟨-, -, m, hs', -, hk₂⟩ := digests_ok hB h₂
  dsimp only at hs hs' hk₁ hk₂
  have hnm : n = m := by
    have he := Nat.eq_of_mul_eq_mul_right hpos (hs.symm.trans hs')
    omega
  subst hnm
  obtain ⟨hd, hsalt, ht, hf⟩ := h
  rw [hs] at ht
  rw [chain_congr ⟨hd, hsalt, ht⟩, boundaryDigest, multimodalPayload_congr hf] at hk₁
  rw [boundaryDigest] at hk₂
  exact Except.ok.inj (hk₁.symm.trans hk₂)

/-! ### State keys -/

/-- No boundary digest is a state key: the inputs have different lengths. -/
theorem boundaryDigest_ne_boundaryStateKey {r : PrefixRequest} {chunk n : Nat} (hpos : 0 < chunk)
    {k d : Digest}
    (h : boundaryDigest (r.chain chunk (n + 1)) r.features ((n + 1) * chunk) = .ok k)
    (hinj : NoCollisions (boundaryStateInput d :: r.hashInputs chunk ((n + 1) * chunk))) :
    k ≠ boundaryStateKey d := by
  intro hk
  rcases boundaryDigest_ok h with ⟨-, hk'⟩ | ⟨media, hne, hm, hk'⟩
  · have he := hinj _ (List.mem_cons_of_mem _ (r.chunkInput_mem_hashInputs hpos le_rfl)) _
      List.mem_cons_self (hk'.symm.trans hk)
    have hlen := congrArg List.length he
    rw [length_chunkInput, length_boundaryStateInput] at hlen
    omega
  · have he := hinj _ (List.mem_cons_of_mem _ (media_mem_hashInputs hpos hne hm)) _
      List.mem_cons_self (hk'.symm.trans hk)
    have hlen := congrArg List.length he
    rw [length_boundaryStateInput, List.length_append, Digest.length_toBytes] at hlen
    rcases multimodalPayload_ok hm with ⟨-, hb⟩ | ⟨-, -, -, hb⟩
    · exact hne hb
    · rw [hb, List.length_append, List.length_append, length_multimodalDomain,
        length_le64] at hlen
      omega

end PrefixRequest

/-! ### Soundness -/

/-- Two requests have one digest at a common boundary exactly when deployment, salt, tokens and
media agree up to it. They then agree at every earlier boundary, no digest is a state key, and
state keys are injective. -/
theorem key_space_sound {chunk : Nat} (hmax : chunk < 2 ^ 62) {a b : PrefixRequest}
    {ba bb : Option (List PyInt)} {outA outB : List PrefixDigest}
    (hA : a.digests chunk ba = .ok outA) (hB : b.digests chunk bb = .ok outB) {s : Nat}
    {k₁ k₂ : Digest} (h₁ : ⟨s, k₁⟩ ∈ outA) (h₂ : ⟨s, k₂⟩ ∈ outB)
    (hinj : NoCollisions (a.hashInputs chunk s ++ b.hashInputs chunk s)) :
    (k₁ = k₂ ↔ a.AgreeTo b s) ∧
      (k₁ = k₂ → ∀ t ≤ s, ∀ (ba' bb' : Option (List PyInt)) (outA' outB' : List PrefixDigest),
        a.digests chunk ba' = .ok outA' → b.digests chunk bb' = .ok outB' →
        ∀ k k', ⟨t, k⟩ ∈ outA' → ⟨t, k'⟩ ∈ outB' → k = k') ∧
      (∀ d, NoCollisions (boundaryStateInput d :: a.hashInputs chunk s) →
        k₁ ≠ boundaryStateKey d) ∧
      (∀ d d', NoCollisions [boundaryStateInput d, boundaryStateInput d'] →
        boundaryStateKey d = boundaryStateKey d' → d = d') := by
  obtain ⟨hpos, hva, n, hs, hla, hk₁⟩ := PrefixRequest.digests_ok hA h₁
  obtain ⟨-, hvb, m, hs', hlb, hk₂⟩ := PrefixRequest.digests_ok hB h₂
  dsimp only at hs hs' hla hlb hk₁ hk₂
  have hnm : n = m := by
    have he := Nat.eq_of_mul_eq_mul_right hpos (hs.symm.trans hs')
    omega
  subst hnm
  subst hs
  have hagree : k₁ = k₂ → a.AgreeTo b ((n + 1) * chunk) := by
    intro hk
    subst hk
    exact PrefixRequest.boundaryDigest_inj hva hvb hpos hmax hla hlb hinj hk₁ hk₂
  refine ⟨⟨hagree, PrefixRequest.digest_congr hA hB h₁ h₂⟩, ?_, ?_, ?_⟩
  · intro hk t ht ba' bb' outA' outB' hA' hB' k k' hk' hk''
    exact PrefixRequest.digest_congr hA' hB' hk' hk'' ((hagree hk).mono ht)
  · intro d hd
    exact PrefixRequest.boundaryDigest_ne_boundaryStateKey hpos hk₁ hd
  · intro d d' hd hk
    exact boundaryStateInput_inj
      (hd _ List.mem_cons_self _ (List.mem_cons_of_mem _ List.mem_cons_self) hk)

/-- A request with an image in its second token. -/
def sampleRequest : PrefixRequest :=
  ⟨.ofNat 7, "team", [1, 2, 3], [⟨"image", "a", 1, 1⟩]⟩

/-- The same request with other tokens and another image after the second token. -/
def sampleExtension : PrefixRequest :=
  ⟨.ofNat 7, "team", [1, 2, 9, 9], [⟨"image", "a", 1, 1⟩, ⟨"image", "b", 2, 1⟩]⟩

/-- Its digest after two tokens. -/
def sampleKey : Digest :=
  .ofNat 0x3ddcfabfdb4b7007548989533474e3b465d33582bef6637aa14e328b757b2f67

/-- A prompt and its extension agree at the first boundary, and no state key is a data key there. -/
theorem key_space_sound_extension :
    sampleRequest.AgreeTo sampleExtension 2 ∧ sampleKey ≠ boundaryStateKey sampleKey := by
  have hinj : NoCollisions (boundaryStateInput sampleKey ::
      (sampleRequest.hashInputs 2 2 ++ sampleExtension.hashInputs 2 2)) :=
    noCollisions_of_nodup (by decide +kernel)
  have hsound := key_space_sound (s := 2) (by decide)
    (show sampleRequest.digests 2 none = .ok [⟨2, sampleKey⟩] by decide +kernel)
    (show sampleExtension.digests 2 (some [some 2]) = .ok [⟨2, sampleKey⟩] by decide +kernel)
    List.mem_cons_self List.mem_cons_self
    (hinj.mono (List.subset_cons_self _ _))
  refine ⟨hsound.1.mp rfl, hsound.2.2.1 sampleKey (hinj.mono ?_)⟩
  exact List.cons_subset_cons _ (List.subset_append_left _ _)

end SpoolCache.Prefix

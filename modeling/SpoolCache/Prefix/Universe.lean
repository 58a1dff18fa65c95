import SpoolCache.Prefix.Boundaries

/-!
# Requests without collisions

A run hashes for finitely many requests. When SHA-256 has no collision among what is hashed for
them, a key determines the keys of every earlier boundary, no key is a state key, and a state key
determines its prefix key.
-/

namespace SpoolCache.Prefix

open SpoolCache.Base

namespace PrefixRequest

/-- The code computes the keys of the first `n` chunk boundaries. -/
def Keyed (r : PrefixRequest) (chunkTokens n : Nat) : Prop :=
  r.digests chunkTokens (some (chunkBoundaries chunkTokens (n * chunkTokens))) =
    .ok (r.keys chunkTokens n)

/-- A request whose digests are computed has keys at those boundaries, and these are the digests. -/
theorem keyed_of_digests {r : PrefixRequest} {chunk n : Nat} {out : List PrefixDigest}
    (h : r.digests chunk (some (chunkBoundaries chunk (n * chunk))) = .ok out) :
    r.Keyed chunk n ∧ out = r.keys chunk n := by
  obtain ⟨rfl, -⟩ := digests_chunkBoundaries h
  exact ⟨h, rfl⟩

/-- The key of every boundary is listed with its span. -/
theorem mem_keys {r : PrefixRequest} {chunk n i : Nat} (h : i < n) :
    ⟨(i + 1) * chunk, r.key chunk (i + 1)⟩ ∈ r.keys chunk n :=
  List.mem_map.mpr ⟨i, List.mem_range.mpr h, rfl⟩

/-- The last key is that of the last boundary. -/
theorem getLast?_keys (r : PrefixRequest) (chunk n : Nat) :
    (r.keys chunk (n + 1)).getLast? = some ⟨(n + 1) * chunk, r.key chunk (n + 1)⟩ := by
  rw [keys, List.range_succ, List.map_append, List.map_singleton, List.getLast?_append_cons]
  rfl

/-- What computing a key says about the request. -/
structure KeyAt (r : PrefixRequest) (chunk i : Nat) : Prop where
  pos : 0 < chunk
  valid : r.Valid
  le : (i + 1) * chunk ≤ r.tokens.length
  digest : boundaryDigest (r.chain chunk (i + 1)) r.features ((i + 1) * chunk) =
    .ok (r.key chunk (i + 1))

/-- A request with keys has one at each boundary. -/
theorem Keyed.keyAt {r : PrefixRequest} {chunk n : Nat} (h : r.Keyed chunk n) {i : Nat}
    (hi : i < n) : KeyAt r chunk i := by
  obtain ⟨hpos, hv, m, hs, hle, hd⟩ := digests_ok h (mem_keys hi)
  have hm : m = i := by
    have := Nat.eq_of_mul_eq_mul_right hpos hs
    omega
  rw [hm] at hd
  exact ⟨hpos, hv, hle, hd⟩

private theorem key_congr {a b : PrefixRequest} {chunk n : Nat} (h : AgreeTo a b (n * chunk)) :
    a.key chunk n = b.key chunk n := by
  obtain ⟨hd, hs, ht, hf⟩ := h
  rw [key, key, chain_congr ⟨hd, hs, ht⟩, boundaryDigest, boundaryDigest,
    multimodalPayload_congr hf]

/-- Without media the key is the chain. -/
theorem key_of_no_features {r : PrefixRequest} (h : r.features = []) (chunk n : Nat) :
    r.key chunk n = r.chain chunk n := by
  unfold key
  rw [h]
  rfl

/-- Every chunk extends the chain by one hash. -/
theorem chain_succ (r : PrefixRequest) (chunk n : Nat) :
    r.chain chunk (n + 1) = sha256 (chunkInput (r.chain chunk n) (r.chunkAt chunk n)) := rfl

end PrefixRequest

/-- Everything that is hashed for these requests, the state keys of their boundaries included. -/
def universeInputs (chunkTokens : Nat) (requests : List PrefixRequest) : List Bytes :=
  requests.flatMap fun r ↦ (List.range (r.tokens.length / chunkTokens)).flatMap fun i ↦
    boundaryStateInput (r.key chunkTokens (i + 1)) ::
      r.hashInputs chunkTokens ((i + 1) * chunkTokens)

section

open PrefixRequest

variable {chunk : Nat} {requests : List PrefixRequest}

private theorem inputs_sub_universe {r : PrefixRequest} (hr : r ∈ requests) {i : Nat}
    (h : KeyAt r chunk i) :
    boundaryStateInput (r.key chunk (i + 1)) :: r.hashInputs chunk ((i + 1) * chunk) ⊆
      universeInputs chunk requests := by
  intro x hx
  have hi : i < r.tokens.length / chunk := by
    rw [Nat.lt_iff_add_one_le, Nat.le_div_iff_mul_le h.pos]
    exact h.le
  exact List.mem_flatMap.mpr ⟨r, hr, List.mem_flatMap.mpr ⟨i, List.mem_range.mpr hi, hx⟩⟩

/-- A common key means common keys at every earlier boundary. -/
theorem earlier_keys_eq (hinj : NoCollisions (universeInputs chunk requests))
    (hmax : chunk < 2 ^ 62) {a b : PrefixRequest} (ha : a ∈ requests) (hb : b ∈ requests) {i : Nat}
    (hka : KeyAt a chunk i) (hkb : KeyAt b chunk i)
    (h : a.key chunk (i + 1) = b.key chunk (i + 1)) {j : Nat} (hj : j ≤ i + 1) :
    a.key chunk j = b.key chunk j := by
  have hsub : a.hashInputs chunk ((i + 1) * chunk) ++ b.hashInputs chunk ((i + 1) * chunk) ⊆
      universeInputs chunk requests := by
    intro x hx
    rcases List.mem_append.mp hx with hx | hx
    · exact inputs_sub_universe ha hka (List.mem_cons_of_mem _ hx)
    · exact inputs_sub_universe hb hkb (List.mem_cons_of_mem _ hx)
  have hdigest := hkb.digest
  rw [← h] at hdigest
  have hagree := boundaryDigest_inj hka.valid hkb.valid hka.pos hmax hka.le hkb.le
    (hinj.mono hsub) hka.digest hdigest
  exact key_congr (hagree.mono (Nat.mul_le_mul_right chunk hj))

/-- No data key is a state key. -/
theorem key_ne_boundaryStateKey (hinj : NoCollisions (universeInputs chunk requests))
    {a b : PrefixRequest} (ha : a ∈ requests) (hb : b ∈ requests) {i j : Nat}
    (hka : KeyAt a chunk i) (hkb : KeyAt b chunk j) :
    a.key chunk (i + 1) ≠ boundaryStateKey (b.key chunk (j + 1)) := by
  apply boundaryDigest_ne_boundaryStateKey hka.pos hka.digest
  apply hinj.mono
  apply List.cons_subset.mpr
  refine ⟨inputs_sub_universe hb hkb List.mem_cons_self, ?_⟩
  exact fun x hx ↦ inputs_sub_universe ha hka (List.mem_cons_of_mem _ hx)

/-- Different data keys have different state keys. -/
theorem boundaryStateKey_inj (hinj : NoCollisions (universeInputs chunk requests))
    {a b : PrefixRequest} (ha : a ∈ requests) (hb : b ∈ requests) {i j : Nat}
    (hka : KeyAt a chunk i) (hkb : KeyAt b chunk j)
    (h : boundaryStateKey (a.key chunk (i + 1)) = boundaryStateKey (b.key chunk (j + 1))) :
    a.key chunk (i + 1) = b.key chunk (j + 1) :=
  boundaryStateInput_inj (hinj _ (inputs_sub_universe ha hka List.mem_cons_self) _
    (inputs_sub_universe hb hkb List.mem_cons_self) h)

/-! ### Spans -/

/-- No digest of the requests begins with the text that the first hash of a chain begins with. -/
def NoDomainDigest (chunkTokens : Nat) (requests : List PrefixRequest) : Prop :=
  ∀ input ∈ universeInputs chunkTokens requests,
    (sha256 input).toBytes.take domain.length ≠ domain

private theorem initialInput_ne_chunkInput {d d' : Digest} {salt : String} {l : List Int}
    (h : d'.toBytes.take domain.length ≠ domain) : initialInput d salt ≠ chunkInput d' l := by
  intro he
  have hle : domain.length ≤ d'.toBytes.length := by
    rw [length_domain, Digest.length_toBytes]
    omega
  have htake := congrArg (List.take domain.length) he
  unfold initialInput chunkInput at htake
  rw [List.append_assoc, List.append_assoc, List.take_left',
    List.take_append_of_le_length hle] at htake
  · exact h htake.symm
  · rfl

private theorem chain_eq_sha256 {r : PrefixRequest} (hr : r ∈ requests) {i n : Nat}
    (h : KeyAt r chunk i) (hn : n ≤ i + 1) :
    ∃ input ∈ universeInputs chunk requests, r.chain chunk n = sha256 input := by
  cases n with
  | zero =>
    exact ⟨_, inputs_sub_universe hr h
      (List.mem_cons_of_mem _ (r.initialInput_mem_hashInputs chunk _)), rfl⟩
  | succ n =>
    have hle : (n + 1) * chunk ≤ (i + 1) * chunk := Nat.mul_le_mul_right chunk hn
    exact ⟨_, inputs_sub_universe hr h
      (List.mem_cons_of_mem _ (r.chunkInput_mem_hashInputs h.pos hle)), rfl⟩

/-- Running digests of different numbers of chunks differ. -/
theorem chain_level_inj (hinj : NoCollisions (universeInputs chunk requests))
    (hdomain : NoDomainDigest chunk requests) {a b : PrefixRequest} (ha : a ∈ requests)
    (hb : b ∈ requests) {i j : Nat} (hka : KeyAt a chunk i) (hkb : KeyAt b chunk j) {m n : Nat}
    (hm : m ≤ i + 1) (hn : n ≤ j + 1) (h : a.chain chunk m = b.chain chunk n) : m = n := by
  have hinitial : ∀ {r : PrefixRequest} {k : Nat}, r ∈ requests → KeyAt r chunk k →
      initialInput r.deployment r.salt ∈ universeInputs chunk requests :=
    fun hr hk ↦ inputs_sub_universe hr hk
      (List.mem_cons_of_mem _ (PrefixRequest.initialInput_mem_hashInputs _ chunk _))
  have hchunk : ∀ {r : PrefixRequest} {k l : Nat}, r ∈ requests → KeyAt r chunk k → l + 1 ≤ k + 1 →
      chunkInput (r.chain chunk l) (r.chunkAt chunk l) ∈ universeInputs chunk requests :=
    fun hr hk hl ↦ inputs_sub_universe hr hk
      (List.mem_cons_of_mem _ (PrefixRequest.chunkInput_mem_hashInputs _ hk.pos
        (Nat.mul_le_mul_right chunk hl)))
  have hapart : ∀ {x y : PrefixRequest} {k k' l : Nat}, x ∈ requests → y ∈ requests →
      KeyAt x chunk k → KeyAt y chunk k' → l + 1 ≤ k' + 1 →
      x.chain chunk 0 ≠ y.chain chunk (l + 1) := by
    intro x y k k' l hx hy hkx hky hl he
    obtain ⟨input, hinput, hsha⟩ := chain_eq_sha256 hy hky (Nat.le_of_succ_le hl)
    have hne := hdomain input hinput
    rw [← hsha] at hne
    exact initialInput_ne_chunkInput hne
      (hinj _ (hinitial hx hkx) _ (hchunk hy hky hl) he)
  induction m generalizing n with
  | zero =>
    cases n with
    | zero => rfl
    | succ n => exact absurd h (hapart ha hb hka hkb hn)
  | succ m ih =>
    cases n with
    | zero => exact absurd h.symm (hapart hb ha hkb hka hm)
    | succ n =>
      have he := hinj _ (hchunk ha hka hm) _ (hchunk hb hkb hn) h
      unfold chunkInput at he
      have hd := (append_inj_of_length
        (by rw [Digest.length_toBytes, Digest.length_toBytes]) he).1
      rw [ih (Nat.le_of_succ_le hm) (Nat.le_of_succ_le hn) (Digest.toBytes_inj hd)]

/-- A key determines its span. -/
theorem key_span_inj (hinj : NoCollisions (universeInputs chunk requests))
    (hdomain : NoDomainDigest chunk requests) (hmax : chunk < 2 ^ 62) {a b : PrefixRequest}
    (ha : a ∈ requests) (hb : b ∈ requests) {i j : Nat} (hka : KeyAt a chunk i)
    (hkb : KeyAt b chunk j) (h : a.key chunk (i + 1) = b.key chunk (j + 1)) : i = j := by
  have hlevel : a.chain chunk (i + 1) = b.chain chunk (j + 1) → i = j := by
    intro he
    have := chain_level_inj hinj hdomain ha hb hka hkb le_rfl le_rfl he
    omega
  have hmedia : ∀ {r : PrefixRequest} {k : Nat} {media : Bytes}, r ∈ requests → KeyAt r chunk k →
      media ≠ [] → multimodalPayload r.features ((k + 1) * chunk) = .ok media →
      (r.chain chunk (k + 1)).toBytes ++ media ∈ universeInputs chunk requests :=
    fun hr hk hne hm ↦ inputs_sub_universe hr hk
      (List.mem_cons_of_mem _ (media_mem_hashInputs hk.pos hne hm))
  have hmixed : ∀ {x y : PrefixRequest} {k l : Nat} {media : Bytes}, x ∈ requests → y ∈ requests →
      KeyAt x chunk k → KeyAt y chunk l → media ≠ [] →
      multimodalPayload x.features ((k + 1) * chunk) = .ok media →
      sha256 ((x.chain chunk (k + 1)).toBytes ++ media) ≠ y.chain chunk (l + 1) := by
    intro x y k l media hx hy hkx hky hne hm he
    have hin := inputs_sub_universe hy hky
      (List.mem_cons_of_mem _ (y.chunkInput_mem_hashInputs hky.pos le_rfl))
    refine media_ne_chunkInput hne hm ?_ (hinj _ (hmedia hx hkx hne hm) _ hin he)
    rw [y.length_chunkAt hky.le]
    exact hmax
  rcases boundaryDigest_ok hka.digest with ⟨hm₁, hk₁⟩ | ⟨m₁, hne₁, hm₁, hk₁⟩
  · rcases boundaryDigest_ok hkb.digest with ⟨hm₂, hk₂⟩ | ⟨m₂, hne₂, hm₂, hk₂⟩
    · exact hlevel (hk₁.symm.trans (h.trans hk₂))
    · exact absurd (hk₂.symm.trans (h.symm.trans hk₁)) (hmixed hb ha hkb hka hne₂ hm₂)
  · rcases boundaryDigest_ok hkb.digest with ⟨hm₂, hk₂⟩ | ⟨m₂, hne₂, hm₂, hk₂⟩
    · exact absurd (hk₁.symm.trans (h.trans hk₂)) (hmixed ha hb hka hkb hne₁ hm₁)
    · have he := hinj _ (hmedia ha hka hne₁ hm₁) _ (hmedia hb hkb hne₂ hm₂)
        (hk₁.symm.trans (h.trans hk₂))
      have hd := (append_inj_of_length
        (by rw [Digest.length_toBytes, Digest.length_toBytes]) he).1
      exact hlevel (Digest.toBytes_inj hd)

end

end SpoolCache.Prefix

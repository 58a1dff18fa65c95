import SpoolCache.Prefix.KeySpace

/-!
# Keys of consecutive boundaries

The connector always asks for every chunk boundary up to a span. What it gets back is one key
for each of them, in order.
-/

namespace SpoolCache.Prefix

open SpoolCache.Base

/-- `range(chunk_tokens, ceiling + 1, chunk_tokens)`. -/
def chunkBoundaries (chunkTokens ceiling : Nat) : List PyInt :=
  (List.range (ceiling / chunkTokens)).map fun i ↦ some (((i + 1) * chunkTokens : Nat) : Int)

namespace PrefixRequest

/-- The key of the first `n` chunks. -/
def key (r : PrefixRequest) (chunkTokens n : Nat) : Digest :=
  match boundaryDigest (r.chain chunkTokens n) r.features (n * chunkTokens) with
  | .ok digest => digest
  | .error _ => r.chain chunkTokens n

/-- The keys of the first `n` chunk boundaries. -/
def keys (r : PrefixRequest) (chunkTokens n : Nat) : List PrefixDigest :=
  (List.range n).map fun i ↦ ⟨(i + 1) * chunkTokens, r.key chunkTokens (i + 1)⟩

private theorem spans_prefixLoop {r : PrefixRequest} {chunk : Nat} (hpos : 0 < chunk)
    {requested : List Nat} {m a : Nat} {d : Digest} {out : List PrefixDigest}
    (h : prefixLoop r.tokens chunk requested r.features
      ((List.range' a m).map fun i ↦ i * chunk) d = .ok out) :
    out.map PrefixDigest.spanTokens =
      ((List.range' (a + 1) (min m (r.tokens.length / chunk - a))).map fun i ↦ i * chunk).filter
        fun s ↦ decide (s ∈ requested) := by
  induction m generalizing a d out with
  | zero =>
    cases h
    simp
  | succ m ih =>
    rw [List.range'_succ, List.map_cons, prefixLoop] at h
    dsimp only at h
    split at h
    · next hlen =>
      cases h
      have hz : r.tokens.length / chunk - a = 0 := by
        rw [List.length_take, List.length_drop] at hlen
        rw [Nat.sub_eq_zero_iff_le, ← Nat.lt_succ_iff, Nat.div_lt_iff_lt_mul hpos, Nat.succ_mul]
        omega
      rw [hz]
      simp
    · next hlen =>
      have hle : a + 1 ≤ r.tokens.length / chunk := by
        rw [List.length_take, List.length_drop] at hlen
        rw [Nat.le_div_iff_mul_le hpos, Nat.succ_mul]
        omega
      have hmin : min (m + 1) (r.tokens.length / chunk - a) =
          min m (r.tokens.length / chunk - (a + 1)) + 1 := by omega
      have hspan : a * chunk + chunk = (a + 1) * chunk := (Nat.succ_mul a chunk).symm
      rw [hmin, List.range'_succ, List.map_cons]
      cases hc : packCount ((r.tokens.drop (a * chunk)).take chunk).length with
      | error e =>
        rw [hc] at h
        cases h
      | ok count =>
        simp only [hc, bind, Except.bind, pure, Except.pure, hspan] at h
        split at h
        · next hreq =>
          rw [List.filter_cons_of_pos (by simpa using hreq)]
          cases hd : boundaryDigest (sha256 (chunkInput d ((r.tokens.drop (a * chunk)).take chunk)))
              r.features ((a + 1) * chunk) with
          | error e =>
            rw [hd] at h
            cases h
          | ok digest =>
            cases hr : prefixLoop r.tokens chunk requested r.features
                ((List.range' (a + 1) m).map fun i ↦ i * chunk)
                (sha256 (chunkInput d ((r.tokens.drop (a * chunk)).take chunk))) with
            | error e =>
              rw [hd, hr] at h
              cases h
            | ok rest =>
              rw [hd, hr] at h
              cases h
              rw [List.map_cons, ih hr]
        · next hreq =>
          rw [List.filter_cons_of_neg (by simpa using hreq)]
          exact ih h

private theorem validateBoundaries_ok {chunk count : Nat} {bs req : List Nat}
    (h : (bs.map fun b : Nat ↦ some (b : Int)).mapM (validateBoundary chunk count) = .ok req) :
    req = bs ∧ ∀ b ∈ bs, b ≤ count := by
  induction bs generalizing req with
  | nil =>
    cases h
    exact ⟨rfl, fun b hb ↦ (by cases hb)⟩
  | cons b bs ih =>
    rw [List.map_cons, List.mapM_cons] at h
    by_cases hb : (b : Int) ≤ 0 ∨ (count : Int) < b ∨ (b : Int) % chunk ≠ 0
    · have he : validateBoundary chunk count (some (b : Int)) =
          .error (.valueError "prefix boundaries must be positive aligned token counts") :=
        if_pos hb
      rw [he] at h
      cases h
    · have he : validateBoundary chunk count (some (b : Int)) = .ok b := if_neg hb
      cases hr : (bs.map fun b : Nat ↦ some (b : Int)).mapM (validateBoundary chunk count) with
      | error e =>
        rw [he, hr] at h
        cases h
      | ok rest =>
        rw [he, hr] at h
        cases h
        obtain ⟨rfl, hle⟩ := ih hr
        refine ⟨rfl, List.forall_mem_cons.mpr ⟨by omega, hle⟩⟩

private theorem filter_multiples {chunk n full : Nat} (hpos : 0 < chunk) (hn : n ≤ full) :
    ((List.range' 1 full).map fun i ↦ i * chunk).filter
        (fun s ↦ decide (s ∈ (List.range n).map fun i ↦ (i + 1) * chunk)) =
      (List.range' 1 n).map fun i ↦ i * chunk := by
  have hmem : ∀ i, i * chunk ∈ ((List.range n).map fun i ↦ (i + 1) * chunk) ↔
      1 ≤ i ∧ i ≤ n := by
    intro i
    rw [List.mem_map]
    constructor
    · rintro ⟨j, hj, he⟩
      have := Nat.eq_of_mul_eq_mul_right hpos he
      have := List.mem_range.mp hj
      omega
    · rintro ⟨h1, h2⟩
      refine ⟨i - 1, List.mem_range.mpr (by omega), ?_⟩
      rw [Nat.sub_add_cancel h1]
  have hfull : full = n + (full - n) := by omega
  rw [hfull, ← List.range'_append, List.map_append, List.filter_append,
    List.filter_eq_self.mpr, List.filter_eq_nil_iff.mpr, List.append_nil]
  · intro s hs
    obtain ⟨i, hi, rfl⟩ := List.mem_map.mp hs
    have := List.mem_range'_1.mp hi
    simp only [hmem, decide_eq_true_eq]
    omega
  · intro s hs
    obtain ⟨i, hi, rfl⟩ := List.mem_map.mp hs
    have := List.mem_range'_1.mp hi
    simp only [hmem, decide_eq_true_eq]
    omega

/-- For every chunk boundary up to a span, the digests are the keys in order, and the span lies
in the prompt. -/
theorem digests_chunkBoundaries {r : PrefixRequest} {chunk n : Nat} {out : List PrefixDigest}
    (h : r.digests chunk (some (chunkBoundaries chunk (n * chunk))) = .ok out) :
    out = r.keys chunk n ∧ n * chunk ≤ r.tokens.length := by
  obtain ⟨hpos, -, requested, hreq, hloop⟩ := digests_inv h
  have hb : chunkBoundaries chunk (n * chunk) =
      ((List.range n).map fun i ↦ (i + 1) * chunk).map fun b : Nat ↦ some (b : Int) := by
    rw [chunkBoundaries, Nat.mul_div_cancel _ hpos, List.map_map]
    rfl
  rw [hb, requestedBoundaries] at hreq
  obtain ⟨rfl, hle⟩ := validateBoundaries_ok hreq
  have hspan : n * chunk ≤ r.tokens.length := by
    cases n with
    | zero => simp
    | succ n =>
      exact hle _ (List.mem_map.mpr ⟨n, List.mem_range.mpr (Nat.lt_succ_self n), rfl⟩)
  have hspans := spans_prefixLoop hpos hloop
  have hmin : min ((r.tokens.length + chunk - 1) / chunk) (r.tokens.length / chunk - 0) =
      r.tokens.length / chunk := by
    rw [Nat.sub_zero]
    exact Nat.min_eq_right (Nat.div_le_div_right (by omega))
  rw [hmin, Nat.zero_add, filter_multiples hpos ((Nat.le_div_iff_mul_le hpos).mpr hspan)] at hspans
  refine ⟨?_, hspan⟩
  have hout : out = out.map fun p ↦ ⟨p.spanTokens, r.key chunk (p.spanTokens / chunk)⟩ := by
    conv_lhs => rw [← List.map_id out]
    apply List.map_congr_left
    intro p hp
    obtain ⟨-, -, m, hs, -, hd⟩ := digests_ok h hp
    have hk : r.key chunk (p.spanTokens / chunk) = p.digest := by
      rw [hs, Nat.mul_div_cancel _ hpos, key, ← hs, hd]
    rw [hk]
    rfl
  have hcomp : out.map (fun p ↦ (⟨p.spanTokens, r.key chunk (p.spanTokens / chunk)⟩ : PrefixDigest)) =
      (out.map PrefixDigest.spanTokens).map fun s ↦ ⟨s, r.key chunk (s / chunk)⟩ := by
    rw [List.map_map]
    rfl
  rw [hout, hcomp, hspans, keys, List.map_map, List.range'_eq_map_range, List.map_map]
  apply List.map_congr_left
  intro i _
  simp only [Function.comp_apply, Nat.mul_div_cancel _ hpos, Nat.add_comm 1 i]

end PrefixRequest

end SpoolCache.Prefix

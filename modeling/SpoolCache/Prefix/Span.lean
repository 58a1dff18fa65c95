import Mathlib.Data.Nat.GCD.Basic
import Mathlib.Order.Bounds.Basic
import Mathlib.Tactic.Common
import SpoolCache.Core.Config

/-!
# Aligned spans

`prefix.py:99–126`. The largest boundary of a prompt that is a multiple of the page alignment
and of the chunk width and leaves a token to compute.
-/

namespace SpoolCache.Prefix

/-- `_gcd`, `prefix.py:123–126`. -/
def gcd (left right : Nat) : Nat :=
  if right = 0 then left else gcd right (left % right)
termination_by right
decreasing_by exact Nat.mod_lt _ (by omega)

/-- `aligned_prefix_span`, `prefix.py:99–120`, on integers that are not negative. -/
def alignedPrefixSpan (promptTokens alignment chunkTokens minSpanTokens : Nat)
    (maxSpanTokens : Option Nat) : Nat :=
  if promptTokens ≤ 1 ∨ alignment = 0 ∨ chunkTokens = 0 then 0
  else
    let quantum := alignment * chunkTokens / gcd alignment chunkTokens
    let span := (promptTokens - 1) / quantum * quantum
    let span := match maxSpanTokens with
      | none => span
      | some maxSpanTokens => min span (maxSpanTokens / quantum * quantum)
    if minSpanTokens ≤ span then span else 0

private theorem gcd_eq (left right : Nat) : gcd left right = Nat.gcd left right := by
  fun_induction gcd left right with
  | case1 left => exact (Nat.gcd_zero_right left).symm
  | case2 left right hr ih => rw [ih, Nat.gcd_comm, ← Nat.gcd_rec, Nat.gcd_comm]

/-! ### Greatest spans -/

/-- One round of the loop of `_gcd`. -/
def gcdRound (p : Nat × Nat) : Nat × Nat := (p.2, p.1 % p.2)

/-- The loop of `_gcd` reaches a zero on the right, with the greatest common divisor on the left. -/
theorem gcdRound_iterate (left right : Nat) :
    ∃ n, gcdRound^[n] (left, right) = (Nat.gcd left right, 0) ∧
      ∀ m < n, (gcdRound^[m] (left, right)).2 ≠ 0 := by
  induction right using Nat.strong_induction_on generalizing left with
  | _ right ih =>
    by_cases hr : right = 0
    · subst hr
      exact ⟨0, by rw [Nat.gcd_zero_right]; rfl, fun m hm ↦ absurd hm (Nat.not_lt_zero m)⟩
    · obtain ⟨n, hn, hbefore⟩ := ih (left % right) (Nat.mod_lt left (by omega)) right
      refine ⟨n + 1, ?_, ?_⟩
      · rw [Function.iterate_succ_apply, gcdRound, hn, Nat.gcd_comm, ← Nat.gcd_rec, Nat.gcd_comm]
      · intro m hm
        cases m with
        | zero => exact hr
        | succ m =>
          rw [Function.iterate_succ_apply]
          exact hbefore m (by omega)

/-- The spans of a prompt that leave a token to compute, obey the limit and are aligned. -/
def alignedSpans (promptTokens alignment chunkTokens : Nat) (maxSpanTokens : Option Nat) : Set Nat :=
  {s | s ≤ promptTokens - 1 ∧ (∀ limit, maxSpanTokens = some limit → s ≤ limit) ∧
    alignment ∣ s ∧ chunkTokens ∣ s}

private theorem isGreatest_multiple {n q : Nat} : IsGreatest {s | s ≤ n ∧ q ∣ s} (n / q * q) := by
  refine ⟨⟨Nat.div_mul_le_self n q, Nat.dvd_mul_left q _⟩, ?_⟩
  rintro s ⟨hle, k, rfl⟩
  rw [Nat.mul_comm q k]
  by_cases hq : q = 0
  · rw [hq, Nat.mul_zero, Nat.mul_zero]
  · apply Nat.mul_le_mul_right
    rw [Nat.le_div_iff_mul_le (by omega), Nat.mul_comm]
    exact hle

private theorem min_multiples (a b q : Nat) : min (a / q * q) (b / q * q) = min a b / q * q := by
  have hmono : ∀ {a b : Nat}, a ≤ b → a / q * q ≤ b / q * q := fun h ↦
    Nat.mul_le_mul_right q (Nat.div_le_div_right h)
  rcases Nat.le_total a b with h | h
  · rw [Nat.min_eq_left h, Nat.min_eq_left (hmono h)]
  · rw [Nat.min_eq_right h, Nat.min_eq_right (hmono h)]

private theorem mem_alignedSpans_iff {prompt alignment chunk s : Nat} {maxSpan : Option Nat} :
    s ∈ alignedSpans prompt alignment chunk maxSpan ↔
      s ≤ (maxSpan.elim (prompt - 1) fun limit ↦ min (prompt - 1) limit) ∧
        Nat.lcm alignment chunk ∣ s := by
  unfold alignedSpans
  rw [Set.mem_ofPred_eq, Nat.lcm_dvd_iff]
  cases maxSpan with
  | none =>
    constructor
    · rintro ⟨hle, -, hdvd⟩
      exact ⟨hle, hdvd⟩
    · rintro ⟨hle, hdvd⟩
      exact ⟨hle, fun limit h ↦ (by cases h), hdvd⟩
  | some limit =>
    rw [Option.elim_some, Nat.le_min]
    constructor
    · rintro ⟨hle, hlimit, hdvd⟩
      exact ⟨⟨hle, hlimit limit rfl⟩, hdvd⟩
    · rintro ⟨⟨hle, hlimit⟩, hdvd⟩
      refine ⟨hle, ?_, hdvd⟩
      intro m hm
      cases hm
      exact hlimit

/-- An aligned span is the greatest one, unless that is too short. -/
theorem alignedPrefixSpan_eq {prompt alignment chunk : Nat} (hprompt : 2 ≤ prompt)
    (hal : 0 < alignment) (hchunk : 0 < chunk) (minSpan : Nat) (maxSpan : Option Nat) :
    ∃ s, IsGreatest (alignedSpans prompt alignment chunk maxSpan) s ∧
      alignedPrefixSpan prompt alignment chunk minSpan maxSpan = if minSpan ≤ s then s else 0 := by
  refine ⟨(maxSpan.elim (prompt - 1) fun limit ↦ min (prompt - 1) limit) /
    Nat.lcm alignment chunk * Nat.lcm alignment chunk, ?_, ?_⟩
  · have hset : alignedSpans prompt alignment chunk maxSpan =
        {s | s ≤ (maxSpan.elim (prompt - 1) fun limit ↦ min (prompt - 1) limit) ∧
          Nat.lcm alignment chunk ∣ s} := by
      ext s
      exact mem_alignedSpans_iff
    rw [hset]
    exact isGreatest_multiple
  · unfold alignedPrefixSpan
    rw [if_neg (by omega)]
    dsimp only
    rw [gcd_eq, ← Nat.lcm_eq_mul_div]
    cases maxSpan with
    | none => rfl
    | some limit =>
      change (if minSpan ≤ min ((prompt - 1) / Nat.lcm alignment chunk * Nat.lcm alignment chunk)
        (limit / Nat.lcm alignment chunk * Nat.lcm alignment chunk) then
          min ((prompt - 1) / Nat.lcm alignment chunk * Nat.lcm alignment chunk)
            (limit / Nat.lcm alignment chunk * Nat.lcm alignment chunk) else 0) = _
      rw [min_multiples]
      rfl

/-- An aligned span is a multiple of the alignment and of the chunk width, below the prompt. -/
theorem alignedPrefixSpan_spec (prompt alignment chunk minSpan : Nat) (maxSpan : Option Nat) :
    alignment ∣ alignedPrefixSpan prompt alignment chunk minSpan maxSpan ∧
      chunk ∣ alignedPrefixSpan prompt alignment chunk minSpan maxSpan ∧
      alignedPrefixSpan prompt alignment chunk minSpan maxSpan ≤ prompt - 1 := by
  have hzero : alignment ∣ 0 ∧ chunk ∣ 0 ∧ 0 ≤ prompt - 1 :=
    ⟨Nat.dvd_zero _, Nat.dvd_zero _, Nat.zero_le _⟩
  by_cases hvalid : prompt ≤ 1 ∨ alignment = 0 ∨ chunk = 0
  · unfold alignedPrefixSpan
    rw [if_pos hvalid]
    exact hzero
  · obtain ⟨s, ⟨⟨hle, -, hal, hc⟩, -⟩, heq⟩ := alignedPrefixSpan_eq (by omega : 2 ≤ prompt)
      (by omega : 0 < alignment) (by omega : 0 < chunk) minSpan maxSpan
    rw [heq]
    split
    · exact ⟨hal, hc, hle⟩
    · exact hzero

/-- Without an upper limit it is the largest such span. -/
theorem le_alignedPrefixSpan {prompt alignment chunk minSpan s : Nat} (hal : alignment ∣ s)
    (hc : chunk ∣ s) (hpos : 0 < s) (hle : s ≤ prompt - 1) (hmin : minSpan ≤ s) :
    s ≤ alignedPrefixSpan prompt alignment chunk minSpan none := by
  have hal0 : 0 < alignment := Nat.pos_of_dvd_of_pos hal hpos
  have hc0 : 0 < chunk := Nat.pos_of_dvd_of_pos hc hpos
  obtain ⟨t, ⟨-, hgreatest⟩, heq⟩ :=
    alignedPrefixSpan_eq (by omega : 2 ≤ prompt) hal0 hc0 minSpan none
  have hst : s ≤ t := hgreatest ⟨hle, fun limit h ↦ (by cases h), hal, hc⟩
  rw [heq, if_pos (hmin.trans hst)]
  exact hst

/-- A chunk is the least multiple of the alignment of at least 256 tokens. -/
theorem isLeast_alignedChunkTokens {alignment : Nat} (h : 0 < alignment) :
    IsLeast {m | alignment ∣ m ∧ 256 ≤ m} (alignedChunkTokens alignment) := by
  have hdiv := Nat.div_add_mod (256 + alignment - 1) alignment
  have hmod := Nat.mod_lt (256 + alignment - 1) h
  unfold alignedChunkTokens
  refine ⟨⟨Nat.dvd_mul_left _ _, ?_⟩, ?_⟩
  · rw [Nat.mul_comm]
    omega
  · rintro m ⟨⟨k, rfl⟩, hle⟩
    rw [Nat.mul_comm alignment k]
    apply Nat.mul_le_mul_right
    rw [← Nat.lt_add_one_iff, Nat.div_lt_iff_lt_mul h, Nat.add_mul, Nat.mul_comm k]
    omega

/-- Aligned spans are the greatest aligned ones, over a loop that ends with the greatest common
divisor; with the chunk width of an alignment they are the multiples of the chunk width. -/
theorem aligned_span_arithmetic {prompt alignment chunk : Nat} (hprompt : 2 ≤ prompt)
    (hal : 0 < alignment) (hchunk : 0 < chunk) (minSpan : Nat) (maxSpan : Option Nat) :
    (∃ s, IsGreatest (alignedSpans prompt alignment chunk maxSpan) s ∧
      alignedPrefixSpan prompt alignment chunk minSpan maxSpan = if minSpan ≤ s then s else 0) ∧
    (∀ left right, gcd left right = Nat.gcd left right ∧
      ∃ n, gcdRound^[n] (left, right) = (Nat.gcd left right, 0) ∧
        ∀ m < n, (gcdRound^[m] (left, right)).2 ≠ 0) ∧
    IsLeast {m | alignment ∣ m ∧ 256 ≤ m} (alignedChunkTokens alignment) ∧
    ∀ span, alignment ∣ span ∧ alignedChunkTokens alignment ∣ span ↔
      alignedChunkTokens alignment ∣ span := by
  refine ⟨alignedPrefixSpan_eq hprompt hal hchunk minSpan maxSpan, ?_, ?_, ?_⟩
  · intro left right
    exact ⟨gcd_eq left right, gcdRound_iterate left right⟩
  · exact isLeast_alignedChunkTokens hal
  · intro span
    refine ⟨And.right, fun h ↦ ⟨?_, h⟩⟩
    exact (isLeast_alignedChunkTokens hal).1.1.trans h

/-- A prompt of 12801 tokens, aligned to 1600 and capped at 6500. -/
theorem aligned_span_arithmetic_1600 :
    ∃ s, IsGreatest (alignedSpans 12801 1600 256 (some 6500)) s ∧
      alignedPrefixSpan 12801 1600 256 1024 (some 6500) = if 1024 ≤ s then s else 0 :=
  (aligned_span_arithmetic (by decide : 2 ≤ 12801) (by decide : 0 < 1600) (by decide : 0 < 256)
    1024 (some 6500)).1

end SpoolCache.Prefix

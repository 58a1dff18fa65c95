import Mathlib.Algebra.Order.BigOperators.Group.List
import Mathlib.Algebra.Order.Ring.Int
import Mathlib.Algebra.Order.Ring.Nat
import Mathlib.Data.List.Basic
import Mathlib.Tactic.Common

/-!
# Byte encodings

Library `Base`. Fixed-width little-endian numbers, two's complement, length-prefixed texts and
concatenations of fixed-width items, with the facts that make a concatenation of encodings
unambiguous: equal lengths in front cancel, and each encoding is injective on its range.
-/

namespace SpoolCache.Base

universe u

/-- Byte strings as lists. -/
abbrev Bytes := List UInt8

/-- The low `width` bytes of a number, least significant first. -/
def leBytes : Nat → Nat → Bytes
  | 0, _ => []
  | width + 1, n => UInt8.ofNat (n % 256) :: leBytes width (n / 256)

/-- As many bytes as the width. -/
@[simp] theorem length_leBytes (width n : Nat) : (leBytes width n).length = width := by
  induction width generalizing n with
  | zero => rfl
  | succ width ih => rw [leBytes, List.length_cons, ih]

private theorem ofNat_mod_inj {a b : Nat} (h : UInt8.ofNat (a % 256) = UInt8.ofNat (b % 256)) :
    a % 256 = b % 256 := by
  have ht := congrArg UInt8.toNat h
  rw [UInt8.toNat_ofNat', UInt8.toNat_ofNat'] at ht
  omega

/-- Numbers that fit the width are determined by their bytes. -/
theorem leBytes_inj {width a b : Nat} (ha : a < 256 ^ width) (hb : b < 256 ^ width)
    (h : leBytes width a = leBytes width b) : a = b := by
  induction width generalizing a b with
  | zero =>
    rw [Nat.pow_zero] at ha hb
    omega
  | succ width ih =>
    rw [leBytes, leBytes, List.cons.injEq] at h
    rw [Nat.pow_succ] at ha hb
    have hmod := ofNat_mod_inj h.1
    have hdiv := ih (Nat.div_lt_of_lt_mul (by omega)) (Nat.div_lt_of_lt_mul (by omega)) h.2
    omega

/-- The low `width` bytes of a number, most significant first. -/
def beBytes (width n : Nat) : Bytes := (leBytes width n).reverse

/-- As many bytes as the width. -/
@[simp] theorem length_beBytes (width n : Nat) : (beBytes width n).length = width := by
  rw [beBytes, List.length_reverse, length_leBytes]

/-- Numbers within the width with the same big-endian bytes are equal. -/
theorem beBytes_inj {width a b : Nat} (ha : a < 256 ^ width) (hb : b < 256 ^ width)
    (h : beBytes width a = beBytes width b) : a = b :=
  leBytes_inj ha hb (List.reverse_injective h)

/-- A number that fits a smaller width has a zero byte in front. -/
theorem beBytes_succ {width n : Nat} (h : n < 256 ^ width) :
    beBytes (width + 1) n = 0 :: beBytes width n := by
  have hlast : leBytes (width + 1) n = leBytes width n ++ [0] := by
    induction width generalizing n with
    | zero =>
      rw [Nat.pow_zero] at h
      rw [Nat.lt_one_iff.mp h]
      rfl
    | succ width ih =>
      rw [Nat.pow_succ] at h
      rw [leBytes, ih (Nat.div_lt_of_lt_mul (by omega))]
      rfl
  rw [beBytes, hlast, List.reverse_append]
  rfl

/-- Unsigned 64-bit little-endian word. -/
def le64 (n : Nat) : Bytes := leBytes 8 n

/-- Eight bytes. -/
@[simp] theorem length_le64 (n : Nat) : (le64 n).length = 8 := length_leBytes 8 n

/-- 64-bit numbers with the same bytes are equal. -/
theorem le64_inj {a b : Nat} (ha : a < 2 ^ 64) (hb : b < 2 ^ 64) (h : le64 a = le64 b) :
    a = b := leBytes_inj (by omega) (by omega) h

/-- Signed 64-bit little-endian word in two's complement. -/
def leInt64 (n : Int) : Bytes := le64 (n % 2 ^ 64).toNat

/-- Eight bytes. -/
@[simp] theorem length_leInt64 (n : Int) : (leInt64 n).length = 8 := length_le64 _

/-- Signed 64-bit range. -/
def IsInt64 (n : Int) : Prop := -2 ^ 63 ≤ n ∧ n < 2 ^ 63

instance : DecidablePred IsInt64 := fun n ↦
  inferInstanceAs (Decidable (-2 ^ 63 ≤ n ∧ n < 2 ^ 63))

/-- Signed 64-bit numbers with the same bytes are equal. -/
theorem leInt64_inj {a b : Int} (ha : IsInt64 a) (hb : IsInt64 b) (h : leInt64 a = leInt64 b) :
    a = b := by
  have he := le64_inj (by omega) (by omega) h
  obtain ⟨ha, ha'⟩ := ha
  obtain ⟨hb, hb'⟩ := hb
  omega

/-! ### Concatenations -/

/-- A first part of known length ends where that length says. -/
theorem append_inj_of_length {a a' b b' : Bytes} (hl : a.length = a'.length)
    (h : a ++ b = a' ++ b') : a = a' ∧ b = b' := List.append_inj h hl

/-- Items of one width are determined by their concatenation and their number. -/
theorem flatMap_inj_of_length {α : Type u} (f : α → Bytes) (width : Nat)
    (hw : ∀ a, (f a).length = width) {l l' : List α}
    (hf : ∀ a ∈ l, ∀ b ∈ l', f a = f b → a = b) (hl : l.length = l'.length)
    (h : l.flatMap f = l'.flatMap f) : l = l' := by
  induction l generalizing l' with
  | nil => exact (List.eq_nil_of_length_eq_zero hl.symm).symm
  | cons a l ih =>
    cases l' with
    | nil => cases hl
    | cons b l' =>
      rw [List.flatMap_cons, List.flatMap_cons] at h
      obtain ⟨hab, hrest⟩ := append_inj_of_length ((hw a).trans (hw b).symm) h
      have he := hf a List.mem_cons_self b List.mem_cons_self hab
      have ht := ih (fun x hx y hy ↦ hf x (List.mem_cons_of_mem a hx) y (List.mem_cons_of_mem b hy))
        (by simpa using hl) hrest
      rw [he, ht]

/-- Items whose encodings never run into each other are determined by their concatenation and
their number. -/
theorem flatMap_inj_of_separated {α : Type u} (f : α → Bytes) {l l' : List α}
    (hf : ∀ a ∈ l, ∀ b ∈ l', ∀ x y, f a ++ x = f b ++ y → a = b ∧ x = y)
    (hl : l.length = l'.length) (h : l.flatMap f = l'.flatMap f) : l = l' := by
  induction l generalizing l' with
  | nil => exact (List.eq_nil_of_length_eq_zero hl.symm).symm
  | cons a l ih =>
    cases l' with
    | nil => cases hl
    | cons b l' =>
      rw [List.flatMap_cons, List.flatMap_cons] at h
      obtain ⟨hab, hrest⟩ := hf a List.mem_cons_self b List.mem_cons_self _ _ h
      have ht := ih (fun x hx y hy ↦ hf x (List.mem_cons_of_mem a hx) y (List.mem_cons_of_mem b hy))
        (by simpa using hl) hrest
      rw [hab, ht]

/-- Texts without the byte that ends them are determined by their concatenation. -/
theorem terminated_separated {stop : UInt8} {a b x y : Bytes} (ha : stop ∉ a) (hb : stop ∉ b)
    (h : a ++ stop :: x = b ++ stop :: y) : a = b ∧ x = y := by
  induction a generalizing b with
  | nil =>
    cases b with
    | nil => exact ⟨rfl, (List.cons.inj h).2⟩
    | cons c b =>
      have hc : stop = c := (List.cons.inj h).1
      exact absurd (hc ▸ List.mem_cons_self) hb
  | cons c a ih =>
    cases b with
    | nil =>
      have hc : c = stop := (List.cons.inj h).1
      exact absurd (hc ▸ List.mem_cons_self) ha
    | cons d b =>
      rw [List.mem_cons, not_or] at ha hb
      rw [List.cons_append, List.cons_append, List.cons.injEq] at h
      obtain ⟨hab, hxy⟩ := ih ha.2 hb.2 h.2
      exact ⟨by rw [h.1, hab], hxy⟩

/-- Items whose encodings never run into each other are determined by their concatenation, where
nothing that follows could be another item. -/
theorem flatMap_append_inj {α : Type u} {f : α → Bytes} {Stops : Bytes → Prop} {l l' : List α}
    (hf : ∀ a ∈ l, ∀ b ∈ l', ∀ x y, f a ++ x = f b ++ y → a = b ∧ x = y)
    (hl : ∀ a ∈ l, ∀ x, ¬ Stops (f a ++ x)) (hl' : ∀ a ∈ l', ∀ x, ¬ Stops (f a ++ x)) {x y : Bytes}
    (hx : Stops x) (hy : Stops y) (h : l.flatMap f ++ x = l'.flatMap f ++ y) : l = l' ∧ x = y := by
  induction l generalizing l' with
  | nil =>
    cases l' with
    | nil => exact ⟨rfl, h⟩
    | cons b l' =>
      rw [List.flatMap_nil, List.nil_append, List.flatMap_cons, List.append_assoc] at h
      exact absurd (h ▸ hx) (hl' b List.mem_cons_self _)
  | cons a l ih =>
    cases l' with
    | nil =>
      rw [List.flatMap_nil, List.nil_append, List.flatMap_cons, List.append_assoc] at h
      exact absurd (h ▸ hy) (hl a List.mem_cons_self _)
    | cons b l' =>
      rw [List.flatMap_cons, List.flatMap_cons, List.append_assoc, List.append_assoc] at h
      obtain ⟨rfl, hrest⟩ := hf a List.mem_cons_self b List.mem_cons_self _ _ h
      obtain ⟨rfl, hxy⟩ := ih (fun c hc d hd ↦ hf c (List.mem_cons_of_mem a hc) d
        (List.mem_cons_of_mem a hd)) (fun c hc ↦ hl c (List.mem_cons_of_mem a hc))
        (fun c hc ↦ hl' c (List.mem_cons_of_mem a hc)) hrest
      exact ⟨rfl, hxy⟩

/-! ### Texts -/

/-- `text.encode("utf-8")`. -/
def utf8 (s : String) : Bytes := s.toByteArray.data.toList

/-- Texts with the same encoding are equal. -/
theorem utf8_inj {s t : String} (h : utf8 s = utf8 t) : s = t := by
  apply String.toByteArray_inj.mp
  apply ByteArray.ext
  exact Array.toList_inj.mp h

/-- A text after its encoded length. -/
def prefixed (s : String) : Bytes := le64 (utf8 s).length ++ utf8 s

/-- A length-prefixed text ends where its length says. -/
theorem prefixed_separated {s t : String} {x y : Bytes} (hs : (utf8 s).length < 2 ^ 64)
    (ht : (utf8 t).length < 2 ^ 64) (h : prefixed s ++ x = prefixed t ++ y) : s = t ∧ x = y := by
  rw [prefixed, prefixed, List.append_assoc, List.append_assoc] at h
  obtain ⟨hn, hrest⟩ := append_inj_of_length (by rw [length_le64, length_le64]) h
  obtain ⟨hst, hxy⟩ := append_inj_of_length (le64_inj hs ht hn) hrest
  exact ⟨utf8_inj hst, hxy⟩

end SpoolCache.Base

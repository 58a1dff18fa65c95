import Mathlib.Order.Basic
import Mathlib.Order.Nat
import Mathlib.Data.List.Dedup
import Mathlib.Tactic.Common
import SpoolCache.Base.Sha256

/-!
# Shared values: digests, spans, runtime integers and errors

Cache keys are SHA-256 digests printed as 64 lowercase hexadecimal characters
(`rank_store.py:944–949`). A fixed-width hexadecimal text is its 256-bit number, and the
order of such texts is the order of the numbers; `Digest` is that number. A value read from
outside and tested with `isinstance` is an `Option`: `none` is any value that fails the test.
-/

namespace SpoolCache

/-- A 64-character lowercase hexadecimal text, read as its 256-bit number. -/
structure Digest where
  toNat : Nat
  isLt : toNat < 2 ^ 256

namespace Digest

/-- A digest is its number. -/
theorem toNat_injective : Function.Injective toNat := by
  intro a b h
  cases a
  cases b
  cases h
  rfl

/-- Text order of equal-length hexadecimal strings is numeric order. -/
instance : LinearOrder Digest := LinearOrder.lift' toNat toNat_injective

instance instLawfulBEq : LawfulBEq Digest := inferInstance

/-- Truncating construction. -/
def ofNat (n : Nat) : Digest := ⟨n % 2 ^ 256, Nat.mod_lt _ (by decide)⟩

/-- `bytes.fromhex(text)`: thirty-two bytes, most significant first. -/
def toBytes (d : Digest) : Base.Bytes := (Base.leBytes 32 d.toNat).reverse

/-- A digest has 32 bytes. -/
@[simp] theorem length_toBytes (d : Digest) : d.toBytes.length = 32 := by
  rw [toBytes, List.length_reverse, Base.length_leBytes]

/-- Digests with the same bytes are equal. -/
theorem toBytes_inj {a b : Digest} (h : a.toBytes = b.toBytes) : a = b := by
  apply toNat_injective
  have ha := a.isLt
  have hb := b.isLt
  exact Base.leBytes_inj (by omega) (by omega) (List.reverse_inj.mp h)

end Digest

/-- `hashlib.sha256(data)`; `digest()` is its bytes and `hexdigest()` its text. -/
def sha256 (data : Base.Bytes) : Digest := .ofNat (Base.Sha256.hash data)

/-- SHA-256 has no collision among these inputs. -/
def NoCollisions (inputs : List Base.Bytes) : Prop :=
  ∀ a ∈ inputs, ∀ b ∈ inputs, sha256 a = sha256 b → a = b

/-- Fewer inputs collide less. -/
theorem NoCollisions.mono {inputs inputs' : List Base.Bytes} (h : NoCollisions inputs)
    (hs : inputs' ⊆ inputs) : NoCollisions inputs' :=
  fun a ha b hb he ↦ h a (hs ha) b (hs hb) he

/-- Inputs whose hashes are distinct do not collide. -/
theorem noCollisions_of_nodup {inputs : List Base.Bytes}
    (h : (inputs.dedup.map sha256).Nodup) : NoCollisions inputs :=
  fun _ ha _ hb he ↦
    List.inj_on_of_nodup_map h (List.mem_dedup.mpr ha) (List.mem_dedup.mpr hb) he

/-- Largest persisted counter; `_MAX_COUNTER`, `quorum.py:17`. -/
def maxCounter : Nat := 2 ^ 63 - 1

/-- A token span that inventory validation accepts: `0 < span <= _MAX_COUNTER`
(`quorum.py:654–661`). -/
abbrev Span := { n : Nat // 0 < n ∧ n ≤ maxCounter }

/-- A value tested with `isinstance(value, int)` and not `bool`; `none` fails the test. -/
abbrev PyInt := Option Int

/-- The exception classes of `errors.py` and the built-in ones, with their texts. -/
inductive PyError where
  | valueError (message : String)
  | typeError (message : String)
  | runtimeError (message : String)
  | osError (message : String)
  | structError (message : String)
  | overflowError (message : String)
  | indexError (message : String)
  | keyError (message : String)
  | fileNotFound
  | configurationError (message : String)
  | identityError (message : String)
  | manifestError (message : String)
  | layoutError (message : String)
  | storeBusyError (message : String)
  | fatalRestoreError (message : String)
  | unsupportedRuntimeError (message : String)
  | assertionError (message : String)
  deriving DecidableEq, Repr

end SpoolCache

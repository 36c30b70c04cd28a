import Mathlib.Data.Int.Basic
import Mathlib.Data.List.Basic
import Mathlib.Order.Lattice
import Mathlib.Tactic.Common
import Mathlib.Tactic.NormNum.Basic
import Mathlib.Tactic.Ring

/-!
# 32-bit integers and their bytes in memory

A 32-bit `int` is an integer in the range of two's complement.  In memory it
is four bytes, least significant first; reading four bytes back as an `int`
inverts writing one.
-/

/-- The values of a 32-bit `int`. -/
@[ext] structure NativeInt where
  val : ℤ
  range : -2147483648 ≤ val ∧ val < 2147483648
deriving DecidableEq

namespace NativeInt

instance : Zero NativeInt := ⟨⟨0, by decide⟩⟩

instance : LE NativeInt := ⟨fun z w => z.val ≤ w.val⟩

instance : LT NativeInt := ⟨fun z w => z.val < w.val⟩

instance : DecidableLE NativeInt := fun z w => Int.decLe z.val w.val

instance : DecidableLT NativeInt := fun z w => Int.decLt z.val w.val

instance : LinearOrder NativeInt where
  le_refl z := Int.le_refl z.val
  le_trans _ _ _ := Int.le_trans
  le_antisymm _ _ h h' := NativeInt.ext (Int.le_antisymm h h')
  le_total z w := Int.le_total z.val w.val
  lt_iff_le_not_ge _ _ := Int.lt_iff_le_and_not_ge
  toDecidableLE := inferInstance
  toDecidableLT := inferInstance

/-- The `width` low bytes of `n`, least significant first. -/
def bytesOfNat : ℕ → ℕ → List UInt8
  | 0, _ => []
  | width + 1, n => UInt8.ofNat n :: bytesOfNat width (n / 256)

def natOfBytes : List UInt8 → ℕ
  | [] => 0
  | b :: bs => b.toNat + 256 * natOfBytes bs

@[simp] theorem length_bytesOfNat (width n : ℕ) : (bytesOfNat width n).length = width := by
  induction width generalizing n with
  | zero => rfl
  | succ width ih => rw [bytesOfNat, List.length_cons, ih]

theorem natOfBytes_bytesOfNat (width n : ℕ) :
    natOfBytes (bytesOfNat width n) = n % 256 ^ width := by
  induction width generalizing n with
  | zero => rw [bytesOfNat, natOfBytes, pow_zero, Nat.mod_one]
  | succ width ih =>
      have hbyte : (UInt8.ofNat n).toNat = n % 256 := UInt8.toNat_ofNat'
      rw [bytesOfNat, natOfBytes, ih, hbyte, pow_succ', Nat.mod_mul]

def ofNat (n : ℕ) : NativeInt :=
  ⟨Int.bmod n 4294967296, Int.le_bmod (by decide), Int.bmod_lt (by decide)⟩

theorem ofNat_val (n : ℕ) : (ofNat n).val = Int.bmod n 4294967296 := by
  unfold ofNat
  with_reducible rfl

theorem ofNat_emod (z : NativeInt) : ofNat (z.val % 4294967296).toNat = z := by
  have hz := z.range
  have hnonneg : 0 ≤ z.val % 4294967296 := Int.emod_nonneg _ (by decide)
  have hmod : (z.val % 4294967296).bmod 4294967296 = z.val.bmod 4294967296 :=
    Int.emod_bmod z.val 4294967296
  apply NativeInt.ext
  rw [ofNat_val, Int.toNat_of_nonneg hnonneg, hmod]
  apply Int.bmod_eq_of_le
  · omega
  · omega

/-- `*(int *) p` for a pointer `p` to at least four bytes. -/
def decode (bytes : List UInt8) : NativeInt := ofNat (natOfBytes (bytes.take 4))

/-- The bytes of `z` in memory. -/
def encode (z : NativeInt) : List UInt8 := bytesOfNat 4 (z.val % 4294967296).toNat

@[simp] theorem length_encode (z : NativeInt) : (encode z).length = 4 := length_bytesOfNat _ _

@[simp] theorem decode_encode (z : NativeInt) : decode (encode z) = z := by
  have hlt : (z.val % 4294967296).toNat < 256 ^ 4 := by omega
  rw [decode, List.take_of_length_le (length_encode z).le, encode, natOfBytes_bytesOfNat,
    Nat.mod_eq_of_lt hlt, ofNat_emod]

/-- Addition and increment of an `int` wrap around. -/
def wrap (z : ℤ) : ℤ := z.bmod 4294967296

theorem wrap_of_range {z : ℤ} (hlow : -2147483648 ≤ z) (hhigh : z < 2147483648) : wrap z = z := by
  apply Int.bmod_eq_of_le
  · omega
  · omega

example : decode [255, 255, 255, 255] = ⟨-1, by decide⟩ := by decide

end NativeInt

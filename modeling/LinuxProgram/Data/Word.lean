/-
32-bit integers as `Int`s that wrap, and numbers written in a fixed number of bytes with the most
significant byte first.
-/
import Mathlib.Data.Int.Basic
import Mathlib.Tactic

namespace LinuxProgram.Data

/-! ## Wrapping -/

/-- The value of a 32-bit `int` that `n` is stored in. -/
def wrap32 (n : Int) : Int := n.bmod (2 ^ 32)

theorem wrap32_eq {n : Int} (h0 : -2 ^ 31 ≤ n) (h : n < 2 ^ 31) : wrap32 n = n :=
  Int.bmod_eq_of_le (by omega) (by omega)

@[simp] theorem wrap32_zero : wrap32 0 = 0 := wrap32_eq (by decide) (by decide)

/-- Counting on from a wrapped value. -/
theorem wrap32_succ (n : Int) : wrap32 (wrap32 n + 1) = wrap32 (n + 1) := Int.bmod_add_bmod

/-- The C remainder of numbers that are not negative. -/
theorem tmod_natCast (a b : Nat) : (a : Int).tmod b = ((a % b : Nat) : Int) := by
  rw [Int.tmod_eq_emod_of_nonneg (by omega)]; rfl

/-- The value of a 64-bit `size_t` that `n` is converted to. -/
def toSize (n : Int) : Nat := (n % 2 ^ 64).toNat

theorem toSize_natCast {n : Nat} (h : n < 2 ^ 64) : toSize n = n := by
  unfold toSize
  omega

/-- The value of a 64-bit `ssize_t` that `n` is converted to. -/
def toSsize (n : Int) : Int := n.bmod (2 ^ 64)

theorem toSsize_eq {n : Int} (h0 : -2 ^ 63 ≤ n) (h : n < 2 ^ 63) : toSsize n = n := by
  apply Int.bmod_eq_of_le
  · omega
  · omega

/-! ## Big-endian numbers -/

/-- The last `w` bytes of `n`, most significant first. -/
def bigEndian : Nat → Nat → List UInt8
  | 0, _ => []
  | w + 1, n => bigEndian w (n / 256) ++ [UInt8.ofNat n]

def ofBigEndian (bs : List UInt8) : Nat :=
  bs.foldl (fun n b => n * 256 + b.toNat) 0

@[simp] theorem bigEndian_length (w n : Nat) : (bigEndian w n).length = w := by
  induction w generalizing n with
  | zero => rfl
  | succ w ih => rw [bigEndian, List.length_append, ih, List.length_singleton]

theorem ofBigEndian_concat (bs : List UInt8) (b : UInt8) :
    ofBigEndian (bs ++ [b]) = ofBigEndian bs * 256 + b.toNat := by
  rw [ofBigEndian, List.foldl_append]
  rfl

/-- What was written is read back, modulo what `w` bytes can hold. -/
theorem ofBigEndian_bigEndian (w n : Nat) : ofBigEndian (bigEndian w n) = n % 256 ^ w := by
  induction w generalizing n with
  | zero => rw [pow_zero, Nat.mod_one]; rfl
  | succ w ih =>
    rw [bigEndian, ofBigEndian_concat, ih, UInt8.toNat_ofNat', pow_succ' 256 w, Nat.mod_mul]
    omega

end LinuxProgram.Data

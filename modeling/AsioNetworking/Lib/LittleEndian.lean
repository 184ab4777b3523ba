import Mathlib.Algebra.Order.Ring.Nat
import Mathlib.Tactic.Ring

/-!
# Little-endian bytes of natural numbers
-/

namespace LittleEndian

/-- The `k` low bytes of `n`, least significant first. -/
def encode : Nat → Nat → List UInt8
  | 0, _ => []
  | k + 1, n => UInt8.ofNat n :: encode k (n / 256)

/-- The number whose bytes are given, least significant first. -/
def decode : List UInt8 → Nat
  | [] => 0
  | b :: bs => b.toNat + 256 * decode bs

@[simp] theorem length_encode (k n : Nat) : (encode k n).length = k := by
  induction k generalizing n with
  | zero => rfl
  | succ k ih => simp only [encode, List.length_cons, ih]

theorem decode_encode (k n : Nat) (h : n < 256 ^ k) : decode (encode k n) = n := by
  induction k generalizing n with
  | zero => simp only [pow_zero, Nat.lt_one_iff] at h; subst h; rfl
  | succ k ih =>
      have hd : n / 256 < 256 ^ k := by
        rw [Nat.div_lt_iff_lt_mul (by decide)]; rwa [pow_succ] at h
      simp only [encode, decode, UInt8.toNat_ofNat', ih _ hd]
      omega

theorem decode_lt (bs : List UInt8) : decode bs < 256 ^ bs.length := by
  induction bs with
  | nil => decide
  | cons b bs ih =>
      have hb := b.toNat_lt
      simp only [decode, List.length_cons, pow_succ]
      omega

theorem encode_decode (bs : List UInt8) : encode bs.length (decode bs) = bs := by
  induction bs with
  | nil => rfl
  | cons b bs ih =>
      have hb := b.toNat_lt
      have hm : (b.toNat + 256 * decode bs) / 256 = decode bs := by omega
      simp only [List.length_cons, encode, decode, hm, ih, List.cons.injEq, and_true]
      apply UInt8.toNat_inj.mp
      rw [UInt8.toNat_ofNat']
      omega

end LittleEndian

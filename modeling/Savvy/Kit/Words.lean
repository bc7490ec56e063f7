import Mathlib.Algebra.Order.Ring.Nat
import Mathlib.Tactic.Common

/-!
Machine words and their bytes. `octet v k` is the byte that the usual shift
and mask take out of a word, and `join32` the usual way back. Both are stated
through the values as natural numbers, where the two are inverse to each other
by division with remainder.
-/

namespace Savvy.Kit

/-- The byte of a word above its lowest `k` bits. -/
def octet (v k : UInt32) : UInt8 := ((v >>> k) &&& 0xFF).toUInt8

def join32 (b0 b1 b2 b3 : UInt8) : UInt32 :=
  (b0.toUInt32 <<< 24) ||| (b1.toUInt32 <<< 16) ||| (b2.toUInt32 <<< 8) ||| b3.toUInt32

theorem toNat_octet (v : UInt32) {k : UInt32} (hk : k.toNat < 32) :
    (octet v k).toNat = v.toNat / 2 ^ k.toNat % 256 := by
  have hand : (v.toNat / 2 ^ k.toNat) &&& 255 = v.toNat / 2 ^ k.toNat % 256 :=
    Nat.and_two_pow_sub_one_eq_mod _ 8
  simp only [octet, UInt32.toNat_toUInt8, UInt32.toNat_and, UInt32.toNat_shiftRight,
    Nat.mod_eq_of_lt hk, Nat.shiftRight_eq_div_pow]
  change (v.toNat / 2 ^ k.toNat &&& 255) % 256 = _
  rw [hand, Nat.mod_mod]

theorem toNat_join32 (b0 b1 b2 b3 : UInt8) :
    (join32 b0 b1 b2 b3).toNat =
      b0.toNat * 2 ^ 24 + b1.toNat * 2 ^ 16 + b2.toNat * 2 ^ 8 + b3.toNat := by
  have h0 := b0.toNat_lt
  have h1 := b1.toNat_lt
  have h2 := b2.toNat_lt
  have h3 := b3.toNat_lt
  -- no shifted byte leaves the word, and the shifted bytes do not overlap
  have e0 : b0.toNat <<< 24 % 2 ^ 32 = b0.toNat * 2 ^ 24 := by
    rw [Nat.shiftLeft_eq]
    omega
  have e1 : b1.toNat <<< 16 % 2 ^ 32 = b1.toNat * 2 ^ 16 := by
    rw [Nat.shiftLeft_eq]
    omega
  have e2 : b2.toNat <<< 8 % 2 ^ 32 = b2.toNat * 2 ^ 8 := by
    rw [Nat.shiftLeft_eq]
    omega
  have o1 : b0.toNat * 2 ^ 24 ||| b1.toNat * 2 ^ 16 = b0.toNat * 2 ^ 24 + b1.toNat * 2 ^ 16 := by
    rw [← Nat.shiftLeft_eq, Nat.shiftLeft_add_eq_or_of_lt]
    omega
  have o2 : (b0.toNat * 2 ^ 24 + b1.toNat * 2 ^ 16) ||| b2.toNat * 2 ^ 8 =
      b0.toNat * 2 ^ 24 + b1.toNat * 2 ^ 16 + b2.toNat * 2 ^ 8 := by
    have hfac : b0.toNat * 2 ^ 24 + b1.toNat * 2 ^ 16 = (b0.toNat * 2 ^ 8 + b1.toNat) <<< 16 := by
      rw [Nat.shiftLeft_eq]
      omega
    rw [hfac, Nat.shiftLeft_add_eq_or_of_lt]
    omega
  have o3 : (b0.toNat * 2 ^ 24 + b1.toNat * 2 ^ 16 + b2.toNat * 2 ^ 8) ||| b3.toNat =
      b0.toNat * 2 ^ 24 + b1.toNat * 2 ^ 16 + b2.toNat * 2 ^ 8 + b3.toNat := by
    have hfac : b0.toNat * 2 ^ 24 + b1.toNat * 2 ^ 16 + b2.toNat * 2 ^ 8 =
        (b0.toNat * 2 ^ 16 + b1.toNat * 2 ^ 8 + b2.toNat) <<< 8 := by
      rw [Nat.shiftLeft_eq]
      omega
    rw [hfac, Nat.shiftLeft_add_eq_or_of_lt]
    omega
  calc (join32 b0 b1 b2 b3).toNat
      = (b0.toNat <<< 24 % 2 ^ 32 ||| b1.toNat <<< 16 % 2 ^ 32 ||| b2.toNat <<< 8 % 2 ^ 32 |||
          b3.toNat) := rfl
    _ = _ := by rw [e0, e1, e2, o1, o2, o3]

theorem join32_octet (v : UInt32) :
    join32 (octet v 24) (octet v 16) (octet v 8) (octet v 0) = v := by
  apply UInt32.toNat_inj.mp
  have hv := v.toNat_lt
  have h24 := toNat_octet v (show (24 : UInt32).toNat < 32 by decide)
  have h16 := toNat_octet v (show (16 : UInt32).toNat < 32 by decide)
  have h8 := toNat_octet v (show (8 : UInt32).toNat < 32 by decide)
  have h0 := toNat_octet v (show (0 : UInt32).toNat < 32 by decide)
  rw [toNat_join32, h24, h16, h8, h0]
  change v.toNat / 2 ^ 24 % 256 * 2 ^ 24 + v.toNat / 2 ^ 16 % 256 * 2 ^ 16 +
    v.toNat / 2 ^ 8 % 256 * 2 ^ 8 + v.toNat / 2 ^ 0 % 256 = v.toNat
  omega

theorem octet_join32 (b0 b1 b2 b3 : UInt8) :
    octet (join32 b0 b1 b2 b3) 24 = b0 ∧ octet (join32 b0 b1 b2 b3) 16 = b1 ∧
      octet (join32 b0 b1 b2 b3) 8 = b2 ∧ octet (join32 b0 b1 b2 b3) 0 = b3 := by
  have h0 := b0.toNat_lt
  have h1 := b1.toNat_lt
  have h2 := b2.toNat_lt
  have h3 := b3.toNat_lt
  have hjoin := toNat_join32 b0 b1 b2 b3
  refine ⟨?_, ?_, ?_, ?_⟩
  · apply UInt8.toNat_inj.mp
    rw [toNat_octet _ (by decide), hjoin]
    change _ / 2 ^ 24 % 256 = _
    omega
  · apply UInt8.toNat_inj.mp
    rw [toNat_octet _ (by decide), hjoin]
    change _ / 2 ^ 16 % 256 = _
    omega
  · apply UInt8.toNat_inj.mp
    rw [toNat_octet _ (by decide), hjoin]
    change _ / 2 ^ 8 % 256 = _
    omega
  · apply UInt8.toNat_inj.mp
    rw [toNat_octet _ (by decide), hjoin]
    change _ / 2 ^ 0 % 256 = _
    omega

end Savvy.Kit
